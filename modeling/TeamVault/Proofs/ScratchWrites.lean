import TeamVault.Proofs.FileSteps
import TeamVault.Proofs.Lifetime
import TeamVault.Proofs.RoundTrip
import Mathlib.Data.List.Forall2

/-!
Writes into a scratch directory. A name leads to one place for as long as the block lasts, since
writing makes no directory; the last write to a place is what stands there. What was written below
the directory goes with it, and what a name took elsewhere stays.
-/
namespace TeamVault

/-! ### Private files put into a tree -/

namespace Tree

variable {t : Tree} {here l k : Location} {p : Path} {fs : List (Location × Bytes)} {data : Bytes}

def overlay (t : Tree) (fs : List (Location × Bytes)) : Tree :=
  fs.foldl (fun t f => t.put f.1 (.file 0o600 f.2)) t

theorem overlay_concat (t : Tree) (fs : List (Location × Bytes)) (f : Location × Bytes) :
    t.overlay (fs ++ [f]) = (t.overlay fs).put f.1 (.file 0o600 f.2) := by
  rw [overlay, List.foldl_append]
  rfl

theorem node?_overlay_of_ne (hk : ∀ f ∈ fs, f.1 ≠ k) : (t.overlay fs).node? k = t.node? k := by
  induction fs using List.reverseRecOn with
  | nil => rfl
  | append_singleton fs f ih =>
    have hf : k ≠ f.1 := (hk f (by simp)).symm
    rw [overlay_concat, node?_put, if_neg hf, ih fun g hg => hk g (List.mem_append_left _ hg)]

theorem node?_overlay_of_last {before after : List (Location × Bytes)}
    (hlast : ∀ f ∈ after, f.1 ≠ k) :
    (t.overlay (before ++ (k, data) :: after)).node? k = some (.file 0o600 data) := by
  have hsplit : t.overlay (before ++ (k, data) :: after) =
      (t.overlay (before ++ [(k, data)])).overlay after := by
    rw [overlay, overlay, overlay, ← List.foldl_append, List.append_assoc, List.singleton_append]
  rw [hsplit, node?_overlay_of_ne hlast, overlay_concat, node?_put, if_pos rfl]

def Fits (t : Tree) (fs : List (Location × Bytes)) : Prop :=
  ∀ f ∈ fs, ¬ t.IsDirectory f.1 ∧ t.IsDirectory f.1.dropLast

theorem isDirectory_overlay (hfs : t.Fits fs) (k : Location) :
    (t.overlay fs).IsDirectory k ↔ t.IsDirectory k := by
  induction fs using List.reverseRecOn with
  | nil => rfl
  | append_singleton fs f ih =>
    have hf := (hfs f (by simp)).1
    have hbefore := ih fun g hg => hfs g (List.mem_append_left _ hg)
    rw [overlay_concat]
    by_cases hk : k = f.1
    · subst hk
      simp [IsDirectory, node?_put] at hf ⊢
      exact hf
    · rw [isDirectory_put_of_ne hk, hbefore]

theorem Sound.overlay (hs : t.Sound here) (hfs : t.Fits fs) : (t.overlay fs).Sound here := by
  induction fs using List.reverseRecOn with
  | nil => exact hs
  | append_singleton fs f ih =>
    have hbefore : t.Fits fs := fun g hg => hfs g (List.mem_append_left _ hg)
    obtain ⟨hfree, habove⟩ := hfs f (by simp)
    rw [overlay_concat]
    exact (ih hbefore).put (mt (isDirectory_overlay hbefore _).1 hfree)
      ((isDirectory_overlay hbefore _).2 habove) _

theorem locate_overlay (hfs : t.Fits fs) :
    (t.overlay fs).locate here p = .ok k ↔ t.locate here p = .ok k :=
  ⟨locate_mono fun k hd => (isDirectory_overlay hfs k).1 hd,
    locate_mono fun k hd => (isDirectory_overlay hfs k).2 hd⟩

theorem filter_putEntry_of_keep (keep : Location → Bool) (hk : keep l = true) (n : Node)
    (es : List (Location × Node)) : (putEntry l n es).filter (fun e => keep e.1) =
      putEntry l n (es.filter fun e => keep e.1) := by
  induction es with
  | nil => simp [putEntry, hk]
  | cons e rest ih =>
    obtain ⟨m, other⟩ := e
    rw [putEntry]
    by_cases hm : m = l
    · subst hm
      simp [hk, putEntry]
    · rw [if_neg hm]
      cases hkeep : keep m with
      | true => simp [hkeep, putEntry, hm, ih]
      | false => simp [hkeep, ih]

theorem remove_put_outside (hk : ¬ l <+: k) (n : Node) :
    (t.put k n).remove l = (t.remove l).put k n := by
  have hkeep : (!l.isPrefixOf k) = true := by
    rw [Bool.not_eq_true', Bool.eq_false_iff]
    exact mt List.isPrefixOf_iff_prefix.1 hk
  rw [remove, put, filter_putEntry_of_keep (fun k => !l.isPrefixOf k) hkeep]
  rfl

theorem remove_overlay (t : Tree) (l : Location) (fs : List (Location × Bytes)) :
    (t.overlay fs).remove l = (t.remove l).overlay (fs.filter fun f => ¬ l <+: f.1) := by
  induction fs using List.reverseRecOn with
  | nil => rfl
  | append_singleton fs f ih =>
    rw [overlay_concat, List.filter_append]
    by_cases hf : l <+: f.1
    · rw [remove_put hf, ih, List.filter_cons_of_neg (by simpa using hf), List.filter_nil,
        List.append_nil]
    · rw [remove_put_outside hf, ih, List.filter_cons_of_pos (by simpa using hf), List.filter_nil,
        overlay_concat]

/-- Where a path would put a file: at what it leads to, unless that is a directory. -/
def place? (t : Tree) (here : Location) (p : Path) : Option Location :=
  match t.locate here p with
  | .error _ => none
  | .ok k => if (t.node? k).any Node.isDirectory then none else some k

theorem any_isDirectory (t : Tree) (k : Location) :
    (t.node? k).any Node.isDirectory = true ↔ t.IsDirectory k := by
  unfold IsDirectory
  rcases t.node? k with _ | ⟨mode, data⟩ | mode <;> simp [Node.isDirectory]

theorem place?_eq_some :
    t.place? here p = some k ↔ t.locate here p = .ok k ∧ ¬ t.IsDirectory k := by
  unfold place?
  rcases t.locate here p with e | m
  · simp
  · rw [← any_isDirectory]
    dsimp only
    split <;> grind

theorem place?_overlay (hfs : t.Fits fs) : (t.overlay fs).place? here p = t.place? here p := by
  refine Option.ext fun k => ?_
  rw [place?_eq_some, place?_eq_some, locate_overlay hfs, isDirectory_overlay hfs]

theorem Sound.fits_of_place (hs : t.Sound here) (hk : t.place? here p = some k) :
    ¬ t.IsDirectory k ∧ t.IsDirectory k.dropLast := by
  obtain ⟨hl, hfree⟩ := place?_eq_some.1 hk
  exact ⟨hfree, ((hs.locate_isDirectory hl).resolve_left hfree).2⟩

theorem Sound.write_of_place (hs : t.Sound here) (hk : t.place? here p = some k) (mode : Nat)
    (data : Bytes) : t.write here p (some mode) data = .ok (t.put k (.file mode data)) := by
  obtain ⟨hfree, m, habove⟩ := hs.fits_of_place hk
  unfold Tree.write
  rw [(place?_eq_some.1 hk).1]
  simp only [bind, Except.bind, habove]
  rcases hn : t.node? k with _ | ⟨old, bytes⟩ | old
  · rfl
  · rfl
  · exact absurd ⟨old, hn⟩ hfree

theorem write_of_no_place (hk : t.place? here p = none) (mode : Nat) (data : Bytes) :
    ∃ e, t.write here p (some mode) data = .error e := by
  cases hw : t.write here p (some mode) data with
  | error e => exact ⟨e, rfl⟩
  | ok u =>
    obtain ⟨l, hl, hfree, -⟩ := write_eq_ok hw
    rw [place?_eq_some.2 ⟨hl, hfree⟩] at hk
    cases hk

theorem prefix_of_walk {names : List String} (hup : ".." ∉ names)
    (hw : t.walk l names = .ok k) : l <+: k := by
  induction names generalizing l with
  | nil =>
    cases hw
    exact List.prefix_rfl
  | cons name rest ih =>
    obtain ⟨hname, hrest⟩ := not_or.1 (mt List.mem_cons.2 hup)
    obtain ⟨-, -, hnext⟩ := ok_of_walk_cons hw
    rw [if_neg (Ne.symm hname)] at hnext
    exact (List.prefix_append l [name]).trans (ih hrest hnext)

end Tree

/-! ### Blocks of writes -/

def Action.attempt {α : Type} (a : Action α) : Action (Except Failure α) := fun h w =>
  (.ok (a h w).1, (a h w).2)

namespace Scratch

open TeamVault.Tree (Sound Fits)

variable {α : Type} {h : Host} {w : World} {t : Tree} {p : Path} {l k : Location} {name : String}
  {data : Bytes} {ws : List (String × Bytes)} {fs : List (Location × Bytes)}

def writeAll (s : Scratch) : List (String × Bytes) → Action (List (Except Failure Path))
  | [] => return []
  | (name, data) :: rest => do
    let r ← (s.write name data).attempt
    let rs ← s.writeAll rest
    return r :: rs

/-- A block of writes that ends with a value or a failure as the results of the writes have it. -/
def writeAndLeave (ws : List (String × Bytes))
    (leave : List (Except Failure Path) → Except Failure α) (s : Scratch) : Action α := do
  let rs ← s.writeAll ws
  Action.ofResult (leave rs)

def place (h : Host) (t : Tree) (p : Path) (name : String) : Option Location :=
  t.place? h.workDirectory (p.child name)

def stored (place : String → Option Location) (ws : List (String × Bytes)) :
    List (Location × Bytes) :=
  ws.filterMap fun x => (place x.1).map (·, x.2)

inductive Answers (p : Path) (place : String → Option Location) :
    String × Bytes → Except Failure Path → Prop
  | stored {name : String} {data : Bytes} {k : Location} (hk : place name = some k) :
    Answers p place (name, data) (.ok (p.child name))
  | refused {name : String} {data : Bytes} {c : Crash} (hk : place name = none) :
    Answers p place (name, data) (.error (.crash c))

theorem exists_of_mem_stored {place : String → Option Location} {f : Location × Bytes}
    (hf : f ∈ stored place ws) : ∃ x ∈ ws, place x.1 = some f.1 := by
  obtain ⟨x, hx, hm⟩ := List.mem_filterMap.1 hf
  obtain ⟨k, hk, rfl⟩ := Option.map_eq_some_iff.1 hm
  exact ⟨x, hx, hk⟩

theorem fits_stored (hs : t.Sound h.workDirectory) (p : Path) (ws : List (String × Bytes)) :
    t.Fits (stored (place h t p) ws) := by
  intro f hf
  obtain ⟨x, -, hk⟩ := exists_of_mem_stored hf
  exact hs.fits_of_place hk

theorem write_of_place (hs : w.files.Sound h.workDirectory)
    (hk : place h w.files p name = some k) (data : Bytes) : (opened p).write name data h w =
      (.ok (p.child name), w.withFiles (w.files.put k (.file 0o600 data))) :=
  Action.bind_of_ok (Files.writePrivate_of_write (hs.write_of_place hk 0o600 data))

theorem write_of_no_place (hk : place h w.files p name = none) (data : Bytes) :
    ∃ c, (opened p).write name data h w = (.error (.crash c), w) := by
  obtain ⟨e, he⟩ := Tree.write_of_no_place hk 0o600 data
  obtain hc | ⟨u, hu, -⟩ := write_cases h w p name data
  · exact hc
  · rw [he] at hu
    cases hu

/-- One more write puts one more file, at the place that its name had before all of them. -/
theorem write_overlay (hs : t.Sound h.workDirectory) (hfs : t.Fits fs) (w : World) (p : Path)
    (x : String × Bytes) :
    ∃ r, (opened p).write x.1 x.2 h (w.withFiles (t.overlay fs)) =
        (r, w.withFiles (t.overlay (fs ++ stored (place h t p) [x]))) ∧
      Answers p (place h t p) x r := by
  obtain ⟨name, data⟩ := x
  have hsame : place h (t.overlay fs) p name = place h t p name := Tree.place?_overlay hfs
  rcases hk : place h t p name with _ | k
  · obtain ⟨c, hc⟩ := write_of_no_place (w := w.withFiles (t.overlay fs)) (hsame.trans hk) data
    refine ⟨_, ?_, .refused hk (c := c)⟩
    rw [hc, stored, List.filterMap_cons, hk]
    simp
  · have hw := write_of_place (w := w.withFiles (t.overlay fs)) (hs.overlay hfs)
      (hsame.trans hk) data
    refine ⟨_, ?_, .stored hk⟩
    rw [hw, stored, List.filterMap_cons, hk]
    exact congrArg _ (congrArg _ (Tree.overlay_concat t fs (k, data)).symm)

theorem writeAll_overlay (hs : t.Sound h.workDirectory) (hfs : t.Fits fs) (w : World) (p : Path)
    (ws : List (String × Bytes)) :
    ∃ rs, (opened p).writeAll ws h (w.withFiles (t.overlay fs)) =
        (.ok rs, w.withFiles (t.overlay (fs ++ stored (place h t p) ws))) ∧
      List.Forall₂ (Answers p (place h t p)) ws rs := by
  -- the files put so far grow with each write, and every next name is seen through them
  induction ws generalizing fs with
  | nil => exact ⟨[], by simp [writeAll, stored], .nil⟩
  | cons x rest ih =>
    obtain ⟨r, hr, hx⟩ := write_overlay hs hfs w p x
    have hfits : t.Fits (fs ++ stored (place h t p) [x]) := fun f hf =>
      (List.mem_append.1 hf).elim (hfs f) (fits_stored hs p [x] f)
    obtain ⟨rs, hrs, hrest⟩ := ih hfits
    refine ⟨r :: rs, ?_, .cons hx hrest⟩
    have hsplit : stored (place h t p) [x] ++ stored (place h t p) rest =
        stored (place h t p) (x :: rest) := (List.filterMap_append ..).symm
    have hattempt : ((opened p).write x.1 x.2).attempt h (w.withFiles (t.overlay fs)) =
        (.ok r, w.withFiles (t.overlay (fs ++ stored (place h t p) [x]))) := by
      rw [Action.attempt, hr]
    rw [List.append_assoc, hsplit] at hrs
    rw [writeAll, Action.bind_of_ok hattempt, Action.bind_of_ok hrs]
    rfl

theorem writeAll_apply (hs : t.Sound h.workDirectory) (w : World) (p : Path)
    (ws : List (String × Bytes)) :
    ∃ rs, (opened p).writeAll ws h (w.withFiles t) =
        (.ok rs, w.withFiles (t.overlay (stored (place h t p) ws))) ∧
      List.Forall₂ (Answers p (place h t p)) ws rs := by
  have hnone : t.Fits [] := fun f hf => absurd hf List.not_mem_nil
  exact writeAll_overlay hs hnone w p ws

def IsInner (name : String) : Prop :=
  (Path.ofText name).isAbsolute = false ∧ ".." ∉ (Path.ofText name).names

instance (name : String) : Decidable (IsInner name) := inferInstanceAs (Decidable (_ ∧ _))

structure IsFileName (name : String) : Prop where
  isName : Path.IsName name
  notAbove : name ≠ ".."
  noNul : name.toList.contains '\x00' = false
  short : Tree.checkName name = .ok ()

def outside (l : Location) (fs : List (Location × Bytes)) : List (Location × Bytes) :=
  fs.filter fun f => ¬ l <+: f.1

section Opened

variable (hs : t.Sound h.workDirectory) (hf : Fresh h t p l)

include hf in
theorem Fresh.inside_of_inner (hin : IsInner name)
    (hk : place h (opening t l) p name = some k) : l <+: k := by
  obtain ⟨hrelative, hup⟩ := hin
  have hchild : (opening t l).locate h.workDirectory (p.child name) = .ok k :=
    (Tree.place?_eq_some.1 hk).1
  exact Tree.prefix_of_walk hup (Tree.walk_of_locate_join hf.locate_opening hrelative hchild)

include hs hf

theorem Fresh.place_of_isFileName (hn : IsFileName name) :
    place h (opening t l) p name = some (l ++ [name]) := by
  obtain ⟨u, hu⟩ := hf.exists_write hs hn.isName hn.notAbove hn.noNul hn.short []
  obtain ⟨k, hk, hfree, -⟩ := Tree.write_eq_ok hu
  have hl := Tree.locate_child hf.locate_opening ⟨_, node?_opening t l⟩ hn.isName hn.notAbove hk
  exact hl ▸ Tree.place?_eq_some.2 ⟨hk, hfree⟩

/-- The directory goes with the files below it; the others stay. -/
theorem Fresh.left_overlay (hfs : (opening t l).Fits fs) (w : World) :
    (opened p).left h (w.withFiles ((opening t l).overlay fs)) =
      w.withFiles (t.overlay (outside l fs)) := by
  obtain ⟨m, hm⟩ := (Tree.isDirectory_overlay hfs l).2 ⟨_, node?_opening t l⟩
  have hfind : (w.withFiles ((opening t l).overlay fs)).files.find h.workDirectory p =
      .ok (l, .directory m) :=
    Tree.find_of_locate ((Tree.locate_overlay hfs).2 hf.locate_opening) hm
  have hrem : ((opening t l).overlay fs).remove l = t.overlay (outside l fs) := by
    rw [Tree.remove_overlay, hf.remove_opening hs]
    rfl
  rw [left, clear, hfind]
  exact congrArg w.withFiles hrem

end Opened

/-- How a block of writes goes in a directory that was made at `l`, and what is left of it. -/
structure Course (h : Host) (w : World) (start : String) (parent : Option Path) (p : Path)
    (l : Location) (ws : List (String × Bytes)) (rs : List (Except Failure Path)) : Prop where
  answers : List.Forall₂ (Answers p (place h (opening w.files l) p)) ws rs
  during : (opened p).writeAll ws h (w.withFiles (opening w.files l)) = (.ok rs,
    w.withFiles ((opening w.files l).overlay (stored (place h (opening w.files l) p) ws)))
  last_stands : ∀ {before after name data k}, ws = before ++ (name, data) :: after →
    place h (opening w.files l) p name = some k →
    (∀ x ∈ after, place h (opening w.files l) p x.1 ≠ some k) →
    ((opened p).writeAll ws h (w.withFiles (opening w.files l))).2.files.find h.workDirectory
      (p.child name) = .ok (k, .file 0o600 data)
  after : ∀ {α : Type} (leave : List (Except Failure Path) → Except Failure α),
    within start parent (writeAndLeave ws leave) h w = (leave rs, w.withFiles
      (w.files.overlay (outside l (stored (place h (opening w.files l) p) ws))))
  restores : (∀ x ∈ ws, IsInner x.1) →
    ∀ {α : Type} (leave : List (Except Failure Path) → Except Failure α),
      within start parent (writeAndLeave ws leave) h w = (leave rs, w)

theorem find_of_last {before after : List (String × Bytes)} (hs : t.Sound h.workDirectory)
    (hk : place h t p name = some k) (hlast : ∀ x ∈ after, place h t p x.1 ≠ some k) :
    (t.overlay (stored (place h t p) (before ++ (name, data) :: after))).find h.workDirectory
      (p.child name) = .ok (k, .file 0o600 data) := by
  have hfits := fits_stored hs p (before ++ (name, data) :: after)
  have hsplit : stored (place h t p) (before ++ (name, data) :: after) =
      stored (place h t p) before ++ (k, data) :: stored (place h t p) after := by
    rw [stored, List.filterMap_append, List.filterMap_cons, hk]
    rfl
  have hafter : ∀ f ∈ stored (place h t p) after, f.1 ≠ k := by
    rintro f hf rfl
    obtain ⟨x, hx, hplace⟩ := exists_of_mem_stored hf
    exact hlast x hx hplace
  refine Tree.find_of_locate ((Tree.locate_overlay hfits).2 (Tree.place?_eq_some.1 hk).1) ?_
  rw [hsplit, Tree.node?_overlay_of_last hafter]

theorem outside_of_inner (hf : Fresh h t p l) (hws : ∀ x ∈ ws, IsInner x.1) :
    outside l (stored (place h (opening t l) p) ws) = [] := by
  refine List.filter_eq_nil_iff.2 fun f hmem => ?_
  obtain ⟨x, hx, hk⟩ := exists_of_mem_stored hmem
  simpa using hf.inside_of_inner (hws x hx) hk

theorem course_of_create {start : String} {parent : Option Path}
    (hs : w.files.Sound h.workDirectory) (hf : Fresh h w.files p l)
    (hc : create start parent h w = (.ok (opened p), w.withFiles (opening w.files l)))
    (ws : List (String × Bytes)) : ∃ rs, Course h w start parent p l ws rs := by
  have hopening := hf.opening_sound hs
  obtain ⟨rs, hrs, hanswers⟩ := writeAll_apply hopening w p ws
  have hafter : ∀ {α : Type} (leave : List (Except Failure Path) → Except Failure α),
      within start parent (writeAndLeave ws leave) h w = (leave rs, w.withFiles
        (w.files.overlay (outside l (stored (place h (opening w.files l) p) ws)))) := by
    intro α leave
    have hbody : writeAndLeave ws leave (opened p) h (w.withFiles (opening w.files l)) =
        (leave rs, w.withFiles
          ((opening w.files l).overlay (stored (place h (opening w.files l) p) ws))) :=
      Action.bind_of_ok hrs
    rw [within_of_created hc, hbody, hf.left_overlay hs (fits_stored hopening p ws)]
  refine ⟨rs, hanswers, hrs, ?_, hafter, ?_⟩
  · intro before after name data k hws hk hlast
    rw [hrs]
    subst hws
    exact find_of_last hopening hk hlast
  · intro hws α leave
    rw [hafter leave, outside_of_inner hf hws]
    rfl

/-- In a scratch directory each write that returns has put its file where its name leads from there,
and the last one to a place is what is found. A name that leads down only has its place below the
directory, so a block of such names leaves everything as it was, whichever way it ends; what other
names have put outside is all that stays. Without a directory a write fails and changes nothing. -/
theorem writes_last_only_outside {h : Host} {w : World} (hs : w.files.Sound h.workDirectory)
    (start : String) (parent : Option Path) :
    (∀ name data g v, closed.write name data g v = (.error (.crash .notReady), v)) ∧
    (∀ (s : Scratch) g v, (s.clear g v).1 = .ok closed) ∧
    ((∃ c, ∀ {α : Type} (body : Scratch → Action α),
        within start parent body h w = (.error (.crash c), w)) ∨
      ∃ p l, Fresh h w.files p l ∧
        create start parent h w = (.ok (opened p), w.withFiles (opening w.files l)) ∧
        (∀ name k, IsInner name → place h (opening w.files l) p name = some k → l <+: k) ∧
        (∀ name, IsFileName name → place h (opening w.files l) p name = some (l ++ [name])) ∧
        ∀ ws, ∃ rs, Course h w start parent p l ws rs) := by
  refine ⟨fun _ _ _ _ => rfl, fun _ _ _ => rfl, ?_⟩
  obtain ⟨c, hc⟩ | ⟨p, l, -, hf, hc⟩ := create_cases h w start parent
  · exact .inl ⟨c, fun body => within_of_failed hc⟩
  · exact .inr ⟨p, l, hf, hc, fun _ _ => hf.inside_of_inner, fun _ => hf.place_of_isFileName hs,
      course_of_create hs hf hc⟩

/-- Two writes to one place, one after the other, and nothing is left of either. -/
theorem desk_is_restored : Desk.tree.Sound Desk.host.workDirectory ∧
    within "envv-" none (writeAndLeave [("a", [1]), ("./a", [2])] fun rs => .ok rs.length)
      Desk.host Desk.world = (.ok 2, Desk.world) := by
  refine ⟨Desk.sound_tree, ?_⟩
  obtain ⟨-, -, ⟨c, hc⟩ | ⟨p, l, -, -, -, -, hcourse⟩⟩ :=
    writes_last_only_outside (w := Desk.world) Desk.sound_tree "envv-" none
  · have hmade : (within "envv-" none (fun _ => pure ()) Desk.host Desk.world).1.isOk = true := by
      decide +kernel
    rw [hc] at hmade
    cases hmade
  · obtain ⟨rs, hrs⟩ := hcourse [("a", [1]), ("./a", [2])]
    have htwo : rs.length = 2 := hrs.answers.length_eq.symm
    rw [hrs.restores (by decide), htwo]

/-- A name that leads up puts its file beside the directory, and there it stays. -/
theorem file_beside_directory_stays :
    Desk.tree.node? ["tmp", "kept"] = none ∧
    (within "envv-" none (fun s => s.write "../kept" [7]) Desk.host Desk.world).1.toOption =
      some ⟨.root, ["tmp", "envv-", "..", "kept"]⟩ ∧
    (within "envv-" none (fun s => s.write "../kept" [7]) Desk.host Desk.world).2.files.node?
      ["tmp", "kept"] = some (.file 0o600 [7]) := by
  decide +kernel

end Scratch

end TeamVault
