import TeamVault.Proofs.BadFiles
import TeamVault.Proofs.KeyRing
import Mathlib.Data.Set.Basic

/-!
The settings of the client and the bindings of directories are two files of one name, in directories
of one name. As long as they are at two places neither is seen by what works on the other. The one
place where they meet is the home directory: who works there finds the settings as a binding.
-/
namespace TeamVault

/-! ### Places that need not be there -/

namespace Tree

variable {t u : Tree} {here spot l k : Location} {n : Node} {p : Path} {name : String}

def IsPlain (name : String) : Prop := name ≠ ".." ∧ checkName name = .ok ()

theorem no_nul_append {names : List String}
    (hnames : ¬ (names.any fun n => n.toList.contains '\x00') = true)
    (hname : name.toList.contains '\x00' = false) :
    ¬ ((names ++ [name]).any fun n => n.toList.contains '\x00') = true := by
  rw [List.any_append, Bool.or_eq_true, not_or]
  exact ⟨hnames, by rw [List.any_cons, List.any_nil, hname]; decide⟩

/-- A path that leads to a directory, and on from there by plain names to where they would lead. -/
def Means (t : Tree) (here : Location) (p : Path) (l : Location) : Prop :=
  (¬ (p.names.any fun n => n.toList.contains '\x00') = true) ∧
    ∃ before after k, p.names = before ++ after ∧ t.walk (start here p) before = .ok k ∧
      t.IsDirectory k ∧ (∀ name ∈ after, IsPlain name) ∧ l = k ++ after

theorem means_of_find {m : Nat} (hf : t.find here p = .ok (l, .directory m)) :
    t.Means here p l := by
  obtain ⟨hl, hn⟩ := locate_of_find hf
  unfold locate at hl
  split at hl
  · cases hl
  · exact ⟨‹_›, p.names, [], l, by simp, hl, ⟨m, hn⟩, by simp, by simp⟩

theorem Sound.free_below_file (hs : t.Sound here) {mode : Nat} {data : Bytes}
    (hl : t.node? l = some (.file mode data)) {more : List String} (hm : more ≠ []) :
    t.node? (l ++ more) = none := by
  cases hn : t.node? (l ++ more) with
  | none => rfl
  | some n =>
    obtain ⟨m, hd⟩ := hs.above hn hm
    rw [hl] at hd
    cases hd

theorem Sound.walk_plain (hs : t.Sound here) {names : List String} (hd : t.IsDirectory spot)
    (hp : ∀ name ∈ names, IsPlain name) :
    t.walk spot names = .ok (spot ++ names) ∨ t.node? (spot ++ names) = none ∧
      (t.walk spot names = .error .notFound ∨ t.walk spot names = .error .notDirectory) := by
  induction names generalizing spot with
  | nil => exact .inl (by simp [walk])
  | cons name rest ih =>
    obtain ⟨⟨hdots, hshort⟩, hrest⟩ := List.forall_mem_cons.1 hp
    have hsplit : spot ++ name :: rest = spot ++ [name] ++ rest := by simp
    rw [walk_cons hd, hshort, if_neg hdots, hsplit]
    change t.walk (spot ++ [name]) rest = _ ∨ _ ∧ (t.walk (spot ++ [name]) rest = _ ∨ _)
    cases rest with
    | nil => exact .inl (by simp [walk])
    | cons next more =>
      cases hn : t.node? (spot ++ [name]) with
      | none =>
        refine .inr ⟨hs.free_below hn (List.prefix_append _ _), .inl ?_⟩
        rw [walk, hn]
      | some n =>
        cases n with
        | directory m => exact ih ⟨m, hn⟩ hrest
        | file mode data =>
          refine .inr ⟨hs.free_below_file hn (List.cons_ne_nil _ _), .inr ?_⟩
          rw [walk, hn]
          rfl

namespace Means

theorem mono (hk : KeepsDirectories t u) (hm : t.Means here p l) : u.Means here p l := by
  obtain ⟨hnul, before, after, k, hp, hw, hd, hafter, rfl⟩ := hm
  exact ⟨hnul, before, after, k, hp, walk_mono hk hw, hk k hd, hafter, rfl⟩

theorem child (hm : t.Means here p l) (hname : Path.IsName name) (hplain : IsPlain name)
    (hnul : name.toList.contains '\x00' = false) : t.Means here (p.child name) (l ++ [name]) := by
  obtain ⟨hany, before, after, k, hp, hw, hd, hafter, rfl⟩ := hm
  rw [Path.child_name hname]
  refine ⟨no_nul_append hany hnul, before, after ++ [name], k, by simp [hp], hw, hd, ?_, by simp⟩
  · intro other ho
    obtain ho | rfl := List.mem_append.1 ho |>.imp id List.mem_singleton.1
    · exact hafter other ho
    · exact hplain

theorem locate_cases (hs : t.Sound here) (hm : t.Means here p l) :
    t.locate here p = .ok l ∨ t.node? l = none ∧
      (t.locate here p = .error .notFound ∨ t.locate here p = .error .notDirectory) := by
  obtain ⟨hnul, before, after, k, hp, hw, hd, hafter, rfl⟩ := hm
  unfold locate
  rw [if_neg hnul, hp, walk_append, hw]
  exact hs.walk_plain hd hafter

theorem find_of_node (hs : t.Sound here) (hm : t.Means here p l) (hn : t.node? l = some n) :
    t.find here p = .ok (l, n) := by
  obtain hl | ⟨hfree, -⟩ := hm.locate_cases hs
  · exact find_of_locate hl hn
  · rw [hn] at hfree
    cases hfree

theorem probe_eq (hs : t.Sound here) (hm : t.Means here p l) :
    t.probe here p = .ok (t.node? l) := by
  cases hn : t.node? l with
  | some n => exact probe_of_find (hm.find_of_node hs hn)
  | none =>
    unfold probe
    rw [find_eq]
    obtain hl | ⟨-, hl | hl⟩ := hm.locate_cases hs
    · simp only [hl, Except.bind, hn]
    · simp only [hl, Except.bind]
    · simp only [hl, Except.bind]

end Means

def DiffersIn (S : Set Location) (t u : Tree) : Prop := ∀ k, k ∉ S → u.node? k = t.node? k

namespace DiffersIn

variable {S : Set Location} (h : DiffersIn S t u)
include h

theorem directories (hS : ∀ k ∈ S, ¬ t.IsDirectory k) : KeepsDirectories t u := by
  rintro k ⟨m, hm⟩
  have hk : k ∉ S := fun hk => hS k hk ⟨m, hm⟩
  exact ⟨m, (h k hk).trans hm⟩

theorem put (k : Location) (n : Node) : DiffersIn S (t.put k n) (u.put k n) := by
  intro other ho
  rw [node?_put, node?_put, h other ho]

end DiffersIn

theorem locate_child_plain (hl : t.locate here p = .ok l) (hd : t.IsDirectory l)
    (hname : Path.IsName name) (hplain : IsPlain name)
    (hnul : name.toList.contains '\x00' = false) :
    t.locate here (p.child name) = .ok (l ++ [name]) := by
  rw [Path.child_name hname]
  unfold locate at hl ⊢
  split at hl
  · cases hl
  next hany =>
    rw [if_neg (no_nul_append hany hnul), walk_append]
    change (t.walk (start here p) p.names).bind _ = _
    rw [hl, Except.bind, walk_cons hd, hplain.2, if_neg hplain.1]
    rfl

theorem makeAlong_append (hw : t.walk spot names = .ok k) (hd : t.IsDirectory k)
    (more : List String) : t.makeAlong spot (names ++ more) = t.makeAlong k more := by
  induction names generalizing spot with
  | nil =>
    cases hw
    rfl
  | cons name rest ih =>
    obtain ⟨-, hc, hnext⟩ := ok_of_walk_cons hw
    obtain ⟨m, hm⟩ := isDirectory_of_walk hnext hd
    rw [List.cons_append, makeAlong, hc]
    dsimp only
    rw [hm]
    exact ih hnext

def withDirectory? (t : Tree) (l : Location) : Option Tree :=
  match t.node? l with
  | some (.directory _) => some t
  | some (.file ..) => none
  | none => some (t.put l (.directory 0o755))

section WithDirectory

variable (hu : t.withDirectory? l = some u)
include hu

theorem differsIn_of_withDirectory : DiffersIn {l} t u := by
  unfold withDirectory? at hu
  intro k (hne : k ≠ l)
  split at hu
  · cases hu
    rfl
  · cases hu
  · cases hu
    rw [node?_put, if_neg hne]

theorem isDirectory_of_withDirectory : u.IsDirectory l := by
  unfold withDirectory? at hu
  split at hu
  next m hn =>
    cases hu
    exact ⟨m, hn⟩
  · cases hu
  · cases hu
    exact ⟨0o755, by rw [node?_put, if_pos rfl]⟩

theorem keepsDirectories_of_withDirectory : KeepsDirectories t u := by
  intro k hd
  by_cases hk : k = l
  · exact hk ▸ isDirectory_of_withDirectory hu
  · obtain ⟨m, hm⟩ := hd
    exact ⟨m, (differsIn_of_withDirectory hu k hk).trans hm⟩

theorem Sound.withDirectory (hs : t.Sound here) (hd : t.IsDirectory l.dropLast) :
    u.Sound here := by
  unfold withDirectory? at hu
  split at hu
  · cases hu
    exact hs
  · cases hu
  next hn =>
    cases hu
    refine hs.put ?_ hd _
    rintro ⟨m, hm⟩
    rw [hn] at hm
    cases hm

end WithDirectory

theorem DiffersIn.withDirectory {S : Set Location} (h : DiffersIn S t u) (hk : k ∉ S) :
    t.withDirectory? k = none ∧ u.withDirectory? k = none ∨
      ∃ t' u', t.withDirectory? k = some t' ∧ u.withDirectory? k = some u' ∧ DiffersIn S t' u' := by
  unfold withDirectory?
  rw [h k hk]
  rcases t.node? k with _ | ⟨mode, data⟩ | mode
  · exact .inr ⟨_, _, rfl, rfl, h.put k _⟩
  · exact .inl ⟨rfl, rfl⟩
  · exact .inr ⟨t, u, rfl, rfl, h⟩

theorem makeDirectories_child {m : Nat} (hf : t.find here p = .ok (k, .directory m))
    (hname : Path.IsName name) (hplain : IsPlain name)
    (hnul : name.toList.contains '\x00' = false) :
    t.makeDirectories here (p.child name) = match t.withDirectory? (k ++ [name]) with
      | some u => (u, none)
      | none => (t, some .notDirectory) := by
  obtain ⟨hl, hn⟩ := locate_of_find hf
  rw [Path.child_name hname]
  unfold locate at hl
  split at hl
  · cases hl
  next hany =>
    unfold makeDirectories withDirectory?
    rw [if_neg (no_nul_append hany hnul)]
    change t.makeAlong (start here p) (p.names ++ [name]) = _
    rw [makeAlong_append hl ⟨m, hn⟩, makeAlong, hplain.2, if_neg hplain.1]
    dsimp only
    rcases t.node? (k ++ [name]) with _ | _ | _ <;> rfl

end Tree

/-! ### What is read at a place -/

namespace Files

variable {α : Type} {h : Host} {w v : World} {p : Path} {l : Location}

theorem isThere_of_means (hs : w.files.Sound h.workDirectory)
    (hm : w.files.Means h.workDirectory p l) :
    isThere p h w = (.ok (w.files.node? l).isSome, w) :=
  isThere_of_probe (hm.probe_eq hs)

section Same

variable (hs : w.files.Sound h.workDirectory) (hv : v.files.Sound h.workDirectory)
  (hm : w.files.Means h.workDirectory p l) (hmv : v.files.Means h.workDirectory p l)
  (hn : v.files.node? l = w.files.node? l)
include hs hv hm hmv hn

theorem readText_congr (hthere : w.files.node? l ≠ none) :
    ∃ r, readText p h w = (r, w) ∧ readText p h v = (r, v) := by
  obtain ⟨n, hw⟩ := Option.ne_none_iff_exists'.1 hthere
  have hread : v.files.read h.workDirectory p = w.files.read h.workDirectory p := by
    unfold Tree.read
    rw [hm.find_of_node hs hw, hmv.find_of_node hv (hn.trans hw)]
  unfold readText read
  rw [Action.bind_apply, Action.bind_apply, lift_apply, lift_apply, hread]
  cases hr : w.files.read h.workDirectory p with
  | error e => exact ⟨_, rfl, rfl⟩
  | ok data =>
    simp only [Except.mapError]
    cases Text.Utf8.decode? data with
    | none => exact ⟨_, rfl, rfl⟩
    | some s => exact ⟨_, rfl, rfl⟩

theorem ifThere_congr {f : String → Action α} {g : Action α}
    (hf : ∀ s, (f s h v).1 = (f s h w).1) (hg : (g h v).1 = (g h w).1) :
    ((isThere p >>= fun there => if there = true then readText p >>= f else g) h v).1 =
      ((isThere p >>= fun there => if there = true then readText p >>= f else g) h w).1 := by
  have hthere := isThere_of_means hs hm
  have hthere' := isThere_of_means hv hmv
  rw [hn] at hthere'
  rw [Action.bind_of_ok hthere, Action.bind_of_ok hthere']
  cases hw : w.files.node? l with
  | none => exact hg
  | some n =>
    obtain ⟨r, hr, hr'⟩ := readText_congr hs hv hm hmv hn (by simp [hw])
    simp only [Option.isSome_some, if_true]
    cases r with
    | error x => rw [Action.bind_of_error hr, Action.bind_of_error hr']
    | ok s => rw [Action.bind_of_ok hr, Action.bind_of_ok hr', hf s]

end Same

end Files

namespace SettingsFile

variable {home : Option Path} {h : Host} {w v : World} {d : Path} {l : Location}

theorem load_congr (hs : w.files.Sound h.workDirectory) (hv : v.files.Sound h.workDirectory)
    (hd : (home.getD Local.usualHome).expandHome? h.home = some d)
    (hm : w.files.Means h.workDirectory (d.child fileName) l)
    (hmv : v.files.Means h.workDirectory (d.child fileName) l)
    (hn : v.files.node? l = w.files.node? l) : (load home h v).1 = (load home h w).1 := by
  have hfrom : (fromFile (d.child fileName) h v).1 = (fromFile (d.child fileName) h w).1 := by
    refine Files.ifThere_congr hs hv hm hmv hn (fun s => ?_) rfl
    rcases decode s with c | cause | x <;> rfl
  rw [load_eq, Action.bind_of_ok (Local.home_of_some hd), Action.bind_of_ok (Local.home_of_some hd)]
  rcases hx : fromFile (d.child fileName) h w with ⟨f | x, u⟩ <;>
    rcases hx' : fromFile (d.child fileName) h v with ⟨f' | x', u'⟩ <;>
    rw [hx, hx'] at hfrom <;> cases hfrom
  · rw [Action.bind_of_error hx, Action.bind_of_error hx']
  · rw [Action.bind_of_ok hx, Action.bind_of_ok hx']
    rfl

end SettingsFile

namespace BindingFile

open Local (directoryName)

variable {b : ProjectBinding} {directory : Option Path} {h : Host} {w v : World} {k l : Location}
  {m : Nat}

theorem isName_directoryName : Path.IsName directoryName := by decide

theorem isName_fileName : Path.IsName fileName := by decide

theorem isPlain_directoryName : Tree.IsPlain directoryName := ⟨by decide, rfl⟩

theorem isPlain_fileName : Tree.IsPlain fileName := ⟨by decide, rfl⟩

def spotIn (k : Location) : Location := k ++ [directoryName, fileName]

theorem means_placeOf
    (hw : w.files.find h.workDirectory (directory.getD ⟨.root, h.workDirectory⟩) =
      .ok (k, .directory m)) :
    w.files.Means h.workDirectory (placeOf h.workDirectory directory) (spotIn k) := by
  have hdir := (Tree.means_of_find hw).child isName_directoryName isPlain_directoryName (by decide)
  have hfile := hdir.child isName_fileName isPlain_fileName (by decide)
  rwa [List.append_assoc] at hfile

theorem load_congr (hs : w.files.Sound h.workDirectory) (hv : v.files.Sound h.workDirectory)
    (hm : w.files.Means h.workDirectory (placeOf h.workDirectory directory) l)
    (hmv : v.files.Means h.workDirectory (placeOf h.workDirectory directory) l)
    (hn : v.files.node? l = w.files.node? l) : (load directory h v).1 = (load directory h w).1 := by
  unfold load
  rw [Action.bind_of_ok path_apply, Action.bind_of_ok path_apply]
  refine Files.ifThere_congr hs hv hm hmv hn (fun s => ?_) rfl
  rcases Yaml.record ["default_environment"] ProjectBinding.ofFields s with c | cause | b <;> rfl

def bound? (t : Tree) (k : Location) (b : ProjectBinding) : Option Tree :=
  (t.withDirectory? (k ++ [directoryName])).map
    (·.put (spotIn k) (.file 0o644 (Text.Utf8.encode b.storedText)))

theorem parent_placeOf (here : Location) : (placeOf here directory).parent =
    (directory.getD ⟨.root, here⟩).child directoryName := by
  rw [placeOf, Path.child_name isName_fileName, Path.parent_names_append]

theorem dropLast_spotIn (k : Location) : (spotIn k).dropLast = k ++ [directoryName] := by
  rw [spotIn, List.dropLast_append_of_ne_nil (by simp)]
  rfl

theorem write_placeOf {u : Tree}
    (hw : w.files.find h.workDirectory (directory.getD ⟨.root, h.workDirectory⟩) =
      .ok (k, .directory m))
    (hn : w.files.node? (spotIn k) = none)
    (hu : w.files.withDirectory? (k ++ [directoryName]) = some u) (data : Bytes) :
    u.write h.workDirectory (placeOf h.workDirectory directory) none data =
      .ok (u.put (spotIn k) (.file 0o644 data)) := by
  have hk := Tree.keepsDirectories_of_withDirectory hu
  have hdir := Tree.locate_child_plain (Tree.locate_mono hk (Tree.locate_of_find hw).1)
    (hk k ⟨m, (Tree.locate_of_find hw).2⟩) isName_directoryName isPlain_directoryName (by decide)
  have hfile := Tree.locate_child_plain hdir (Tree.isDirectory_of_withDirectory hu)
    isName_fileName isPlain_fileName (by decide)
  rw [List.append_assoc] at hfile
  have hlocate : u.locate h.workDirectory (placeOf h.workDirectory directory) =
    .ok (spotIn k) := hfile
  have hfree : u.node? (spotIn k) = none := by
    rw [Tree.differsIn_of_withDirectory hu _ (by simp [spotIn]), hn]
  obtain ⟨mode, hd⟩ := Tree.isDirectory_of_withDirectory hu
  unfold Tree.write
  rw [hlocate]
  simp only [bind, Except.bind, hfree, dropLast_spotIn, hd]
  rfl

/-- What a save in a directory does: it is refused where anything is at the place of the binding,
and else it makes what is missing there. -/
theorem save_at (hs : w.files.Sound h.workDirectory)
    (hw : w.files.find h.workDirectory (directory.getD ⟨.root, h.workDirectory⟩) =
      .ok (k, .directory m)) (b : ProjectBinding) :
    save b directory h w = match w.files.node? (spotIn k), bound? w.files k b with
      | some _, _ => (.error (.fault (alreadyThere (placeOf h.workDirectory directory))), w)
      | none, none => (.error (.crash .fileSystem), w)
      | none, some u => (.ok (placeOf h.workDirectory directory), w.withFiles u) := by
  have hm := means_placeOf hw
  have hprobe := hm.probe_eq hs
  cases hn : w.files.node? (spotIn k) with
  | some n =>
    rw [hn] at hprobe
    exact save_of_there hprobe
  | none =>
    rw [hn] at hprobe
    have hmake := Tree.makeDirectories_child hw isName_directoryName isPlain_directoryName
      (by decide)
    rw [← parent_placeOf] at hmake
    unfold save bound?
    rw [Action.bind_of_ok path_apply, Action.bind_of_ok (Files.isThere_of_probe hprobe),
      Option.isSome_none, if_neg Bool.false_ne_true]
    cases hu : w.files.withDirectory? (k ++ [directoryName]) with
    | none =>
      rw [hu] at hmake
      have hfails : Files.makeDirectories (placeOf h.workDirectory directory).parent h w =
          (.error (.crash .fileSystem), w) := by
        unfold Files.makeDirectories
        rw [hmake]
        rfl
      exact Action.bind_of_error hfails
    | some u =>
      rw [hu] at hmake
      have hmade : Files.makeDirectories (placeOf h.workDirectory directory).parent h w =
          (.ok (), w.withFiles u) := by
        unfold Files.makeDirectories
        rw [hmake]
        rfl
      rw [Action.bind_of_ok hmade]
      exact Action.bind_of_ok (Files.change_of_eq (write_placeOf hw hn hu _))

theorem save_congr {u : Tree} {S : Set Location} (hs : w.files.Sound h.workDirectory)
    (hu : u.Sound h.workDirectory)
    (hw : w.files.find h.workDirectory (directory.getD ⟨.root, h.workDirectory⟩) =
      .ok (k, .directory m))
    (hd : w.files.DiffersIn S u) (hS : ∀ l ∈ S, ¬ w.files.IsDirectory l) (hspot : spotIn k ∉ S)
    (hdir : k ++ [directoryName] ∉ S) (b : ProjectBinding) :
    (save b directory h (w.withFiles u)).1 = (save b directory h w).1 ∧
      (save b directory h w).2.files.DiffersIn S (save b directory h (w.withFiles u)).2.files := by
  have hfind : u.find h.workDirectory (directory.getD ⟨.root, h.workDirectory⟩) =
      .ok (k, .directory m) := by
    obtain ⟨hlocate, hn⟩ := Tree.locate_of_find hw
    have hk : k ∉ S := fun hk => hS k hk ⟨m, hn⟩
    exact Tree.find_of_locate (Tree.locate_mono (hd.directories hS) hlocate)
      ((hd k hk).trans hn)
  have hsave := save_at hs hw b
  have hsave' := save_at (w := w.withFiles u) hu hfind b
  have hnode : (w.withFiles u).files.node? (spotIn k) = w.files.node? (spotIn k) := hd _ hspot
  have hfiles : (w.withFiles u).files = u := rfl
  rw [hnode, hfiles] at hsave'
  cases hn : w.files.node? (spotIn k) with
  | some n =>
    rw [hn] at hsave hsave'
    rw [hsave, hsave']
    exact ⟨rfl, hd⟩
  | none =>
    rw [hn] at hsave hsave'
    unfold bound? at hsave hsave'
    obtain ⟨ht, hu⟩ | ⟨t', u', ht, hu, hd'⟩ := hd.withDirectory hdir
    · rw [ht] at hsave
      rw [hu] at hsave'
      rw [hsave, hsave']
      exact ⟨rfl, hd⟩
    · rw [ht] at hsave
      rw [hu] at hsave'
      rw [hsave, hsave']
      exact ⟨rfl, hd'.put _ _⟩

theorem save_files (hs : w.files.Sound h.workDirectory)
    (hw : w.files.find h.workDirectory (directory.getD ⟨.root, h.workDirectory⟩) =
      .ok (k, .directory m)) (b : ProjectBinding) :
    (save b directory h w).2 = w ∨ w.files.node? (spotIn k) = none ∧
      ∃ u, bound? w.files k b = some u ∧ (save b directory h w).2 = w.withFiles u := by
  have hsave := save_at hs hw b
  cases hn : w.files.node? (spotIn k) with
  | some n =>
    rw [hn] at hsave
    exact .inl (by rw [hsave])
  | none =>
    rw [hn] at hsave
    cases hu : bound? w.files k b with
    | none =>
      rw [hu] at hsave
      exact .inl (by rw [hsave])
    | some u =>
      rw [hu] at hsave
      exact .inr ⟨rfl, u, rfl, by rw [hsave]⟩

section Bound

variable {t u : Tree} {here k l : Location} {b : ProjectBinding}

theorem bound_eq_some (hu : bound? t k b = some u) : ∃ v,
    t.withDirectory? (k ++ [directoryName]) = some v ∧
      u = v.put (spotIn k) (.file 0o644 (Text.Utf8.encode b.storedText)) := by
  obtain ⟨v, hv, rfl⟩ := Option.map_eq_some_iff.1 hu
  exact ⟨v, hv, rfl⟩

variable (hu : bound? t k b = some u) (hn : t.node? (spotIn k) = none)
include hu hn

theorem bound_keepsDirectories : t.KeepsDirectories u := by
  obtain ⟨v, hv, rfl⟩ := bound_eq_some hu
  refine (Tree.keepsDirectories_of_withDirectory hv).trans (Tree.keepsDirectories_put ?_ _)
  rintro ⟨m, hm⟩
  rw [Tree.differsIn_of_withDirectory hv _ (by simp [spotIn]), hn] at hm
  cases hm

theorem bound_sound (hs : t.Sound here) (hd : t.IsDirectory k) : u.Sound here := by
  obtain ⟨v, hv, rfl⟩ := bound_eq_some hu
  have hvs : v.Sound here := Tree.Sound.withDirectory hv hs (by rwa [List.dropLast_concat])
  refine hvs.put ?_ ?_ _
  · rintro ⟨m, hm⟩
    rw [Tree.differsIn_of_withDirectory hv _ (by simp [spotIn]), hn] at hm
    cases hm
  · rw [dropLast_spotIn]
    exact Tree.isDirectory_of_withDirectory hv

omit hn in
theorem bound_node (hdir : l ≠ k ++ [directoryName]) : u.node? l =
    if l = spotIn k then some (.file 0o644 (Text.Utf8.encode b.storedText)) else t.node? l := by
  obtain ⟨v, hv, rfl⟩ := bound_eq_some hu
  rw [Tree.node?_put, Tree.differsIn_of_withDirectory hv l hdir]

end Bound

end BindingFile

namespace SettingsFile

variable {home : Option Path} {h : Host} {w : World} {d : Path} {l : Location}
  {b : ProjectBinding}

theorem decode_binding (hb : b.LoadsBack) : decode b.storedText = .ok (.ok .default) := by
  have hfields : (Yaml.Block.mapping (b.entries.map fun e => (e.1, .text e.2))).value.fields?
      ["age_key_file"] = some (b.entries.map fun e => (e.1, .text e.2)) := rfl
  have hread : ClientSettings.ofFields (b.entries.map fun e => (e.1, .text e.2)) =
      .fits .default := rfl
  unfold decode Yaml.record
  rw [hb]
  simp only [hfields, hread]

theorem load_of_none (hs : w.files.Sound h.workDirectory)
    (hd : (home.getD Local.usualHome).expandHome? h.home = some d)
    (hm : w.files.Means h.workDirectory (d.child fileName) l) (hn : w.files.node? l = none) :
    (load home h w).1 = .ok (withSurroundings h.serviceUrl .default) := by
  have hthere := Files.isThere_of_means hs hm
  rw [hn] at hthere
  have hfrom : fromFile (d.child fileName) h w = (.ok .default, w) := Action.bind_of_ok hthere
  rw [load_eq, Action.bind_of_ok (Local.home_of_some hd), Action.bind_of_ok hfrom]
  rfl

theorem load_of_binding (hs : w.files.Sound h.workDirectory)
    (hd : (home.getD Local.usualHome).expandHome? h.home = some d)
    (hm : w.files.Means h.workDirectory (d.child fileName) l) (hb : b.LoadsBack) {mode : Nat}
    (hn : w.files.node? l = some (.file mode (Text.Utf8.encode b.storedText))) :
    (load home h w).1 = .ok (withSurroundings h.serviceUrl .default) := by
  have hf := hm.find_of_node hs hn
  have hthere := Files.isThere_of_probe (Tree.probe_of_find hf)
  have htext := Files.readText_of_find hf
  rw [ProjectBinding.unifyBreaks_storedText] at htext
  have hfrom := fromFile_of_text hthere htext
  rw [decode_binding hb] at hfrom
  rw [load_eq, Action.bind_of_ok (Local.home_of_some hd), Action.bind_of_ok hfrom]
  rfl

end SettingsFile

namespace Local

open BindingFile (spotIn)
open SettingsFile (fileName)

variable {home directory : Option Path} {h : Host} {w : World} {d : Path} {l k : Location} {m : Nat}

/-- Where settings come and go: at their file, and at its directory as long as that is not there. -/
def settingsPlaces (t : Tree) (l : Location) : Set Location :=
  {k | k = l ++ [fileName] ∨ k = l ∧ t.node? l = none}

theorem settings_ne_directory (l k : Location) : l ++ [fileName] ≠ k ++ [directoryName] := by
  intro he
  have hlast := (List.append_inj' he rfl).2
  exact absurd hlast (by decide)

theorem settings_eq_binding : l ++ [fileName] = spotIn k ↔ l = k ++ [directoryName] := by
  have hsplit : spotIn k = k ++ [directoryName] ++ [fileName] := by
    rw [spotIn, List.append_assoc]
    rfl
  rw [hsplit]
  exact List.append_left_inj [fileName]

theorem not_isDirectory_of_settingsPlaces {t : Tree} (hfree : ¬ t.IsDirectory (l ++ [fileName])) :
    ∀ k ∈ settingsPlaces t l, ¬ t.IsDirectory k := by
  rintro k (rfl | ⟨rfl, hn⟩)
  · exact hfree
  · rintro ⟨m, hm⟩
    rw [hn] at hm
    cases hm

theorem spotIn_mem_settingsPlaces {t : Tree} : spotIn k ∈ settingsPlaces t l ↔
    l = k ++ [directoryName] ∨ spotIn k = l ∧ t.node? l = none :=
  or_congr (eq_comm.trans settings_eq_binding) Iff.rfl

theorem directory_notMem_settingsPlaces {t : Tree} (hspot : spotIn k ∉ settingsPlaces t l) :
    k ++ [directoryName] ∉ settingsPlaces t l := by
  rintro (he | ⟨he, -⟩)
  · exact settings_ne_directory l k he.symm
  · exact hspot (spotIn_mem_settingsPlaces.2 (.inl he.symm))

section Working

variable (hs : w.files.Sound h.workDirectory)
  (hhome : (home.getD usualHome).expandHome? h.home = some d)
  (hm : w.files.Means h.workDirectory d l)
  (hfree : ¬ w.files.IsDirectory (l ++ [fileName]))
  (hw : w.files.find h.workDirectory (directory.getD ⟨.root, h.workDirectory⟩) =
    .ok (k, .directory m))
include hs hw

section Changed

variable {u : Tree} (hu : u.Sound h.workDirectory)
  (hd : w.files.DiffersIn (settingsPlaces w.files l) u)
include hu hd hfree

theorem binding_congr (hspot : spotIn k ∉ settingsPlaces w.files l) :
    (BindingFile.isThere directory h (w.withFiles u)).1 = (BindingFile.isThere directory h w).1 ∧
      (BindingFile.load directory h (w.withFiles u)).1 = (BindingFile.load directory h w).1 ∧
      ∀ b, (BindingFile.save b directory h (w.withFiles u)).1 =
          (BindingFile.save b directory h w).1 ∧
        (BindingFile.save b directory h w).2.files.DiffersIn (settingsPlaces w.files l)
          (BindingFile.save b directory h (w.withFiles u)).2.files := by
  have hplaces := not_isDirectory_of_settingsPlaces hfree
  have hmeans := BindingFile.means_placeOf hw
  have hmeans' := hmeans.mono (hd.directories hplaces)
  have hnode := hd _ hspot
  refine ⟨?_, BindingFile.load_congr hs hu hmeans hmeans' hnode,
    BindingFile.save_congr hs hu hw hd hplaces hspot (directory_notMem_settingsPlaces hspot)⟩
  unfold BindingFile.isThere
  rw [Action.bind_of_ok BindingFile.path_apply, Action.bind_of_ok BindingFile.path_apply,
    Files.isThere_of_means hs hmeans, Files.isThere_of_means (w := w.withFiles u) hu hmeans']
  exact congrArg (fun n => Except.ok (Option.isSome n)) hnode

omit hs in
theorem binding_of_settings :
    (BindingFile.isThere directory h (w.withFiles u)).1 = .ok (u.node? (spotIn k)).isSome ∧
      (u.node? (spotIn k) ≠ none → ∀ b,
        BindingFile.save b directory h (w.withFiles u) = (.error (.fault
          (BindingFile.alreadyThere (BindingFile.placeOf h.workDirectory directory))),
            w.withFiles u)) := by
  have hmeans := (BindingFile.means_placeOf hw).mono
    (hd.directories (not_isDirectory_of_settingsPlaces hfree))
  constructor
  · unfold BindingFile.isThere
    rw [Action.bind_of_ok BindingFile.path_apply,
      Files.isThere_of_means (w := w.withFiles u) hu hmeans]
    rfl
  · intro hthere b
    obtain ⟨n, hn⟩ := Option.ne_none_iff_exists'.1 hthere
    refine BindingFile.save_of_there (n := n) ?_
    rw [← hn]
    exact hmeans.probe_eq hu

end Changed

include hhome hm in
theorem settings_of_save {b : ProjectBinding} (hb : l = k ++ [directoryName] → b.LoadsBack) :
    (SettingsFile.load home h (BindingFile.save b directory h w).2).1 =
      (SettingsFile.load home h w).1 := by
  obtain hsame | ⟨hn, u, hu, hsaved⟩ := BindingFile.save_files hs hw b
  · rw [hsame]
  rw [hsaved]
  have hfile := hm.child BindingFile.isName_fileName BindingFile.isPlain_fileName (by decide)
  have hk : w.files.IsDirectory k := ⟨m, (Tree.locate_of_find hw).2⟩
  have hsound := BindingFile.bound_sound hu hn hs hk
  have hfile' := hfile.mono (BindingFile.bound_keepsDirectories hu hn)
  have hnode := BindingFile.bound_node hu (settings_ne_directory l k)
  by_cases heq : l = k ++ [directoryName]
  · -- nothing was there, and what is there now has none of the entries of settings
    have hspot := settings_eq_binding.2 heq
    rw [if_pos hspot] at hnode
    rw [SettingsFile.load_of_binding (w := w.withFiles u) hsound hhome hfile' (hb heq) hnode,
      SettingsFile.load_of_none hs hhome hfile (hspot ▸ hn)]
  · rw [if_neg fun he => heq (settings_eq_binding.1 he)] at hnode
    exact SettingsFile.load_congr (v := w.withFiles u) hs hsound hhome hfile hfile' hnode

end Working

/-- The settings of a home and the binding of a directory do not touch each other, unless the home
is the one in that directory, or is itself made where the binding would be. Then whatever is put
there for settings is taken for a binding; even so a binding says nothing to those who look for
settings. -/
theorem settings_and_binding_apart (hs : w.files.Sound h.workDirectory)
    (hhome : (home.getD usualHome).expandHome? h.home = some d)
    (hm : w.files.Means h.workDirectory d l)
    (hfree : ¬ w.files.IsDirectory (l ++ [fileName]))
    (hw : w.files.find h.workDirectory (directory.getD ⟨.root, h.workDirectory⟩) =
      .ok (k, .directory m)) :
    (∀ u : Tree, u.Sound h.workDirectory → w.files.DiffersIn (settingsPlaces w.files l) u →
      (l = k ++ [directoryName] ∨ spotIn k = l ∧ w.files.node? l = none →
        (BindingFile.isThere directory h (w.withFiles u)).1 = .ok (u.node? (spotIn k)).isSome ∧
          (u.node? (spotIn k) ≠ none → ∀ b,
            BindingFile.save b directory h (w.withFiles u) = (.error (.fault
              (BindingFile.alreadyThere (BindingFile.placeOf h.workDirectory directory))),
                w.withFiles u))) ∧
      (¬ (l = k ++ [directoryName] ∨ spotIn k = l ∧ w.files.node? l = none) →
        (BindingFile.isThere directory h (w.withFiles u)).1 =
            (BindingFile.isThere directory h w).1 ∧
          (BindingFile.load directory h (w.withFiles u)).1 = (BindingFile.load directory h w).1 ∧
          ∀ b, (BindingFile.save b directory h (w.withFiles u)).1 =
              (BindingFile.save b directory h w).1 ∧
            (BindingFile.save b directory h w).2.files.DiffersIn (settingsPlaces w.files l)
              (BindingFile.save b directory h (w.withFiles u)).2.files)) ∧
    ∀ b : ProjectBinding, (l = k ++ [directoryName] → b.LoadsBack) →
      (SettingsFile.load home h (BindingFile.save b directory h w).2).1 =
        (SettingsFile.load home h w).1 := by
  refine ⟨fun u hu hd => ⟨fun _ => binding_of_settings hfree hw hu hd, fun hapart => ?_⟩,
    fun b hb => settings_of_save hs hhome hm hw hb⟩
  exact binding_congr hs hfree hw hu hd fun hmem => hapart (spotIn_mem_settingsPlaces.1 hmem)

theorem means_usualHome (hu : w.files.find h.workDirectory h.home = .ok (k, .directory m)) :
    ∃ d, usualHome.expandHome? h.home = some d ∧
      w.files.Means h.workDirectory d (k ++ [directoryName]) := by
  refine ⟨h.home.child directoryName, rfl, ?_⟩
  exact (Tree.means_of_find hu).child BindingFile.isName_directoryName
    BindingFile.isPlain_directoryName (by decide)

/-! A user without settings, and with them. -/

def settled : Tree :=
  (Desk.tree.put [".envv"] (.directory 0o755)).put [".envv", "config.yaml"]
    (.file 0o644 (Text.Utf8.encode "api_url: https://x\n"))

theorem differsIn_settled : Desk.tree.DiffersIn (settingsPlaces Desk.tree [".envv"]) settled := by
  intro l hl
  have hfile : l ≠ [".envv", "config.yaml"] := fun he => hl (.inl he)
  have hhome : l ≠ [".envv"] := fun he => hl (.inr ⟨he, rfl⟩)
  rw [settled, Tree.node?_put, if_neg hfile, Tree.node?_put, if_neg hhome]

theorem sound_settled : settled.Sound ["work"] := by
  refine (Desk.sound_tree.put ?_ ⟨0o755, rfl⟩ _).put ?_ ⟨0o755, rfl⟩ _
  · rintro ⟨m, hm⟩
    cases hm
  · rintro ⟨m, hm⟩
    cases hm

def atHome : Host := { Desk.host with workDirectory := [] }

/-- Who works elsewhere has a binding of their own, with settings or without. -/
theorem apart_at_work :
    (BindingFile.isThere none Desk.host (Desk.world.withFiles settled)).1 =
        (BindingFile.isThere none Desk.host Desk.world).1 ∧
      (BindingFile.save BindingFile.quotable none Desk.host (Desk.world.withFiles settled)).1 =
        (BindingFile.save BindingFile.quotable none Desk.host Desk.world).1 ∧
      (SettingsFile.load none Desk.host
          (BindingFile.save BindingFile.quotable none Desk.host Desk.world).2).1 =
        (SettingsFile.load none Desk.host Desk.world).1 := by
  have huser : Desk.world.files.find Desk.host.workDirectory Desk.host.home =
      .ok ([], .directory 0o755) := rfl
  obtain ⟨d, hd, hm⟩ := means_usualHome huser
  have hfree : ¬ Desk.world.files.IsDirectory ([directoryName] ++ [fileName]) := by
    rintro ⟨m, hm⟩
    cases hm
  have hwork : Desk.world.files.find Desk.host.workDirectory
      (Option.getD none ⟨.root, Desk.host.workDirectory⟩) = .ok (["work"], .directory 0o755) := rfl
  have hhome : (Option.getD none usualHome).expandHome? Desk.host.home = some d := hd
  obtain ⟨hchange, hsettings⟩ :=
    settings_and_binding_apart Desk.sound_tree hhome hm hfree hwork
  have hne : [] ++ [directoryName] ≠ ["work"] ++ [directoryName] := by decide
  have hapart : ¬ ([] ++ [directoryName] = ["work"] ++ [directoryName] ∨
      spotIn ["work"] = [] ++ [directoryName] ∧
        Desk.world.files.node? ([] ++ [directoryName]) = none) := by decide
  have hsame := (hchange settled sound_settled differsIn_settled).2 hapart
  exact ⟨hsame.1, (hsame.2.2 _).1, hsettings _ fun he => absurd he hne⟩

/-- Who works in the home directory can bind it only as long as there are no settings. -/
theorem meet_at_home :
    Desk.tree.DiffersIn (settingsPlaces Desk.tree [".envv"]) settled ∧
      (BindingFile.isThere none atHome Desk.world).1 = .ok false ∧
      (BindingFile.isThere none atHome (Desk.world.withFiles settled)).1 = .ok true ∧
      (BindingFile.save BindingFile.quotable none atHome Desk.world).1.isOk = true ∧
      (BindingFile.save BindingFile.quotable none atHome (Desk.world.withFiles settled)).1.isOk =
        false :=
  ⟨differsIn_settled, rfl, rfl, rfl, rfl⟩

end Local

end TeamVault
