import TeamVault.Proofs.LocalState
import TeamVault.Proofs.ServiceAnswers

/-!
What single file operations find and leave behind. A step that returned has changed the tree as it
was told, what it has written is found, and what it has removed is not.
-/
namespace TeamVault

/-! ### Steps that returned -/

namespace Action

variable {α β : Type} {a : Action α} {f : α → Action β} {h : Host} {w w' : World}

def atTime (now : Timestamp) (a : Action α) : Action α := fun h w => a { h with now := now } w

theorem ok_of_bind {y : β} (hb : (a >>= f) h w = (.ok y, w')) :
    ∃ x u, a h w = (.ok x, u) ∧ f x h u = (.ok y, w') := by
  rw [bind_apply] at hb
  rcases ha : a h w with ⟨e | x, u⟩
  · rw [ha] at hb
    cases hb
  · rw [ha] at hb
    exact ⟨x, u, rfl, hb⟩

theorem exists_of_isOk (ha : (a h w).1.isOk = true) : ∃ x, a h w = (.ok x, (a h w).2) := by
  rcases hr : a h w with ⟨e | x, u⟩
  · rw [hr] at ha
    cases ha
  · exact ⟨x, rfl⟩

theorem expandHome_apply (p : Path) (h : Host) (w : World) :
    expandHome p h w = (match p.expandHome? h.home with
      | some q => .ok q
      | none => .error (.crash .notReady), w) := by
  unfold expandHome
  rw [bind_of_ok (host_apply (h := h) (w := w))]
  cases p.expandHome? h.home <;> rfl

theorem expandHome_of_some {p q : Path} (hq : p.expandHome? h.home = some q) :
    expandHome p h w = (.ok q, w) := by
  rw [expandHome_apply, hq]

theorem expandHome_of_ok {p q : Path} (hp : expandHome p h w = (.ok q, w')) :
    p.expandHome? h.home = some q ∧ w' = w := by
  rw [expandHome_apply] at hp
  cases hq : p.expandHome? h.home with
  | none =>
    rw [hq] at hp
    cases hp
  | some q' =>
    rw [hq] at hp
    cases hp
    exact ⟨rfl, rfl⟩

def FailsInFiles (a : Action α) : Prop :=
  ∀ h w x w', a h w = (.error x, w') → ∃ e, x = .crash (Files.failure e)

namespace FailsInFiles

theorem pure (y : α) : FailsInFiles (Pure.pure y : Action α) := by
  intro h w x w' hx
  cases hx

theorem bind (ha : a.FailsInFiles) (hf : ∀ y, (f y).FailsInFiles) : (a >>= f).FailsInFiles := by
  intro h w x w' hx
  obtain hx | ⟨y, v, -, hx⟩ := error_of_bind hx
  · exact ha h w x w' hx
  · exact hf y h v x w' hx

theorem cases (ha : a.FailsInFiles) (h : Host) (w : World) :
    (∃ x w', a h w = (.ok x, w')) ∨ ∃ e w', a h w = (.error (.crash (Files.failure e)), w') := by
  rcases hr : a h w with ⟨x | x, w'⟩
  · obtain ⟨e, rfl⟩ := ha h w x w' hr
    exact .inr ⟨e, w', rfl⟩
  · exact .inl ⟨x, w', rfl⟩

end FailsInFiles

end Action

/-! ### Trees -/

namespace Tree

variable {t u : Tree} {here spot l k : Location} {n : Node} {p : Path}

theorem probe_of_find (hf : t.find here p = .ok (l, n)) : t.probe here p = .ok (some n) := by
  rw [probe, hf]

theorem probe_eq_some (hp : t.probe here p = .ok (some n)) : ∃ l, t.find here p = .ok (l, n) := by
  unfold probe at hp
  split at hp
  next k m hf =>
    cases hp
    exact ⟨k, hf⟩
  · cases hp
  · cases hp

theorem read_of_find {mode : Nat} {data : Bytes}
    (hf : t.find here p = .ok (l, .file mode data)) : t.read here p = .ok data := by
  rw [read, hf]

theorem setMode_eq_ok {mode : Nat} (hu : t.setMode here p mode = .ok u) :
    ∃ l n, t.find here p = .ok (l, n) ∧ u = t.put l (n.withMode mode) := by
  unfold setMode at hu
  cases hf : t.find here p with
  | error e =>
    rw [hf] at hu
    cases hu
  | ok x =>
    rw [hf] at hu
    cases hu
    exact ⟨x.1, x.2, rfl, rfl⟩

theorem keepsDirectories_setMode (hn : t.node? l = some n) (mode : Nat) :
    KeepsDirectories t (t.put l (n.withMode mode)) := by
  intro other hd
  by_cases ho : other = l
  · subst ho
    obtain ⟨m, hm⟩ := hd
    obtain rfl : n = .directory m := Option.some.inj (hn.symm.trans hm)
    exact ⟨mode, by rw [node?_put, if_pos rfl]; rfl⟩
  · exact (isDirectory_put_of_ne ho).2 hd

theorem isDirectory_of_locate_child {name : String} (hl : t.locate here p = .ok l)
    (hname : Path.IsName name) (hk : t.locate here (p.child name) = .ok k) : t.IsDirectory l :=
  isDirectory_of_walk_cons (walk_of_locate_child hl hname hk)

theorem ok_of_walk_cons {name : String} {rest : List String}
    (hw : t.walk spot (name :: rest) = .ok l) : t.IsDirectory spot ∧ checkName name = .ok () ∧
      t.walk (if name = ".." then spot.dropLast else spot ++ [name]) rest = .ok l := by
  have hd := isDirectory_of_walk_cons hw
  rw [walk_cons hd] at hw
  cases hc : checkName name with
  | error e =>
    rw [hc] at hw
    cases hw
  | ok _ =>
    rw [hc] at hw
    exact ⟨hd, rfl, hw⟩

theorem isDirectory_of_walk {names : List String} (hw : t.walk spot names = .ok l)
    (hl : t.IsDirectory l) : t.IsDirectory spot := by
  cases names with
  | nil =>
    cases hw
    exact hl
  | cons name rest => exact isDirectory_of_walk_cons hw

theorem makeAlong_of_walk {names : List String} (hw : t.walk spot names = .ok l)
    (hl : t.IsDirectory l) : t.makeAlong spot names = (t, none) := by
  induction names generalizing spot with
  | nil => rfl
  | cons name rest ih =>
    obtain ⟨-, hc, hnext⟩ := ok_of_walk_cons hw
    obtain ⟨m, hm⟩ := isDirectory_of_walk hnext hl
    rw [makeAlong, hc]
    dsimp only
    rw [hm]
    exact ih hnext

theorem makeDirectories_parent_of_find (hf : t.find here p = .ok (l, n)) :
    t.makeDirectories here p.parent = (t, none) ∧ ∃ k m, t.find here p.parent = .ok (k, m) := by
  obtain ⟨anchor, names⟩ := p
  rcases List.eq_nil_or_concat' names with rfl | ⟨before, name, rfl⟩
  · exact ⟨rfl, l, n, hf⟩
  have hparent : (Path.mk anchor (before ++ [name])).parent = ⟨anchor, before⟩ :=
    Path.parent_names_append ⟨anchor, before⟩ name
  obtain ⟨hl, -⟩ := locate_of_find hf
  rw [hparent]
  unfold locate at hl
  split at hl
  · cases hl
  next hnul =>
    have hbefore : ¬ (before.any fun n => n.toList.contains '\x00') = true := fun hb =>
      hnul (by simp only [List.any_append, hb, Bool.true_or])
    obtain ⟨k, hk, hd⟩ : ∃ k, t.walk (start here ⟨anchor, before⟩) before = .ok k ∧
        t.IsDirectory k := by
      change t.walk (start here ⟨anchor, before⟩) (before ++ [name]) = .ok l at hl
      rw [walk_append] at hl
      cases hk : t.walk (start here ⟨anchor, before⟩) before with
      | error e =>
        rw [hk] at hl
        cases hl
      | ok k =>
        rw [hk] at hl
        exact ⟨k, rfl, isDirectory_of_walk_cons hl⟩
    obtain ⟨m, hm⟩ := hd
    refine ⟨?_, k, .directory m, find_of_locate ?_ hm⟩
    · unfold makeDirectories
      rw [if_neg hbefore]
      exact makeAlong_of_walk hk ⟨m, hm⟩
    · unfold locate
      rw [if_neg hbefore]
      exact hk

theorem find_setMode {q : Path} {mode old : Nat} {bytes : Bytes}
    (hu : t.setMode here q mode = .ok u) (hf : t.find here p = .ok (l, .file old bytes)) :
    ∃ new, u.find here p = .ok (l, .file new bytes) := by
  obtain ⟨k, n, hk, rfl⟩ := setMode_eq_ok hu
  obtain ⟨-, hn⟩ := locate_of_find hk
  obtain ⟨hl, hfile⟩ := locate_of_find hf
  have hlocate := locate_mono (keepsDirectories_setMode hn mode) hl
  by_cases hlk : l = k
  · subst hlk
    obtain rfl := Option.some.inj (hn.symm.trans hfile)
    exact ⟨mode, find_of_locate hlocate (by rw [node?_put, if_pos rfl]; rfl)⟩
  · exact ⟨old, find_of_locate hlocate (by rw [node?_put, if_neg hlk, hfile])⟩

theorem exists_of_find_setMode {q : Path} {mode : Nat} (hu : t.setMode here q mode = .ok u)
    (hf : u.find here p = .ok (l, n)) : ∃ old, t.find here p = .ok (l, old) := by
  obtain ⟨k, m, hk, rfl⟩ := setMode_eq_ok hu
  obtain ⟨-, hm⟩ := locate_of_find hk
  obtain ⟨hl, hn⟩ := locate_of_find hf
  have hback : KeepsDirectories (t.put k (m.withMode mode)) t := by
    intro other hd
    by_cases ho : other = k
    · subst ho
      obtain ⟨x, hx⟩ := hd
      rw [node?_put, if_pos rfl] at hx
      cases m with
      | file => cases hx
      | directory old => exact ⟨old, hm⟩
    · exact (isDirectory_put_of_ne ho).1 hd
  have hlocate := locate_mono hback hl
  by_cases hlk : l = k
  · subst hlk
    exact ⟨m, find_of_locate hlocate hm⟩
  · rw [node?_put, if_neg hlk] at hn
    exact ⟨n, find_of_locate hlocate hn⟩

theorem setMode_of_find (hf : t.find here p = .ok (l, n)) (mode : Nat) :
    t.setMode here p mode = .ok (t.put l (n.withMode mode)) := by
  rw [setMode, hf]
  rfl

theorem write_of_find {old : Nat} {bytes : Bytes}
    (hf : t.find here p = .ok (l, .file old bytes)) (mode : Nat) (data : Bytes) :
    t.write here p (some mode) data = .ok (t.put l (.file mode data)) := by
  obtain ⟨hl, hn⟩ := locate_of_find hf
  unfold write
  rw [hl]
  simp only [bind, Except.bind, hn]
  rfl

section Removing

theorem walk_remove {names : List String} (hw : t.walk spot names = .ok l) (k : Location) :
    (t.remove k).walk spot names = .ok l ∨ (t.remove k).walk spot names = .error .notFound := by
  induction names generalizing spot with
  | nil => exact .inl hw
  | cons name rest ih =>
    obtain ⟨⟨m, hm⟩, hc, hnext⟩ := ok_of_walk_cons hw
    -- the way leads through what was removed, or is the same as before
    by_cases hk : k.isPrefixOf spot = true
    · right
      rw [walk, node?_remove, if_pos hk]
    · have hd : (t.remove k).node? spot = some (.directory m) := by
        rw [node?_remove, if_neg hk, hm]
      rw [walk_cons ⟨m, hd⟩, hc]
      exact ih hnext

theorem probe_remove (hf : t.find here p = .ok (l, n)) : (t.remove l).probe here p = .ok none := by
  obtain ⟨hl, -⟩ := locate_of_find hf
  have hgone : (t.remove l).node? l = none := by
    rw [node?_remove, if_pos (by simp)]
  have hfind : (t.remove l).find here p = .error .notFound := by
    rw [find_eq]
    unfold locate at hl ⊢
    split at hl
    · cases hl
    next hnul =>
      rw [if_neg hnul]
      rcases walk_remove hl l with hw | hw
      · rw [hw]
        simp only [Except.bind, hgone]
      · rw [hw]
        rfl
  rw [probe, hfind]

theorem removeFile_eq_ok (hu : t.removeFile here p = .ok u) :
    ∃ l mode data, t.find here p = .ok (l, .file mode data) ∧ u = t.remove l := by
  unfold removeFile at hu
  rcases hf : t.find here p with e | ⟨l, n⟩
  · rw [hf] at hu
    cases hu
  · rw [hf] at hu
    cases n with
    | file mode data =>
      cases hu
      exact ⟨l, mode, data, rfl, rfl⟩
    | directory mode => cases hu

end Removing

end Tree

/-! ### File operations -/

theorem Text.unifyBreaksChars_of_not_mem {cs : List Char} (hcs : '\r' ∉ cs) :
    unifyBreaksChars cs = cs := by
  fun_induction unifyBreaksChars cs with
  | case1 => rfl
  | case2 rest => simp at hcs
  | case3 c rest hpair ih =>
    rw [List.mem_cons, not_or] at hcs
    rw [if_neg (Ne.symm hcs.1), ih hcs.2]

theorem Text.unifyBreaks_of_not_mem {s : String} (hs : '\r' ∉ s.toList) : unifyBreaks s = s := by
  rw [unifyBreaks, unifyBreaksChars_of_not_mem hs, String.ofList_toList]

namespace Files

variable {α : Type} {h : Host} {w w' : World} {p : Path}

theorem isThere_apply (p : Path) (h : Host) (w : World) : isThere p h w =
    (((w.files.probe h.workDirectory p).map Option.isSome).mapError fun e => .crash (failure e),
      w) := by
  unfold isThere node?
  rw [Action.bind_apply, lift_apply]
  cases w.files.probe h.workDirectory p <;> rfl

theorem isThere_of_probe {n : Option Node} (hp : w.files.probe h.workDirectory p = .ok n) :
    isThere p h w = (.ok n.isSome, w) := by
  rw [isThere_apply, hp]
  rfl

theorem isThere_of_ok {there : Bool} (hi : isThere p h w = (.ok there, w')) :
    w' = w ∧ ∃ n, w.files.probe h.workDirectory p = .ok n ∧ n.isSome = there := by
  rw [isThere_apply] at hi
  cases hp : w.files.probe h.workDirectory p with
  | error e =>
    rw [hp] at hi
    cases hi
  | ok n =>
    rw [hp] at hi
    cases hi
    exact ⟨rfl, n, rfl, rfl⟩

def Contains (here : Location) (t : Tree) (p : Path) (bytes : Bytes) : Prop :=
  ∃ l mode, t.find here p = .ok (l, .file mode bytes)

theorem isThere_of_contains {bytes : Bytes} (hp : Contains h.workDirectory w.files p bytes) :
    isThere p h w = (.ok true, w) := by
  obtain ⟨l, mode, hf⟩ := hp
  exact isThere_of_probe (Tree.probe_of_find hf)

theorem readText_of_find {l : Location} {mode : Nat} {s : String}
    (hf : w.files.find h.workDirectory p = .ok (l, .file mode (Text.Utf8.encode s))) :
    readText p h w = (.ok (Text.unifyBreaks s), w) := by
  unfold readText read
  rw [Action.bind_apply, lift_apply, Tree.read_of_find hf]
  simp only [Except.mapError, Text.Utf8.decode_encode]
  rfl

theorem change_of_ok {f : Host → Tree → Except FileError Tree} {x : Unit}
    (hc : change f h w = (.ok x, w')) :
    ∃ t, f h w.files = .ok t ∧ w' = w.withFiles t := by
  unfold change at hc
  cases hf : f h w.files with
  | error e =>
    rw [hf] at hc
    cases hc
  | ok t =>
    rw [hf] at hc
    cases hc
    exact ⟨t, rfl, rfl⟩

theorem change_of_eq {f : Host → Tree → Except FileError Tree} {t : Tree}
    (ht : f h w.files = .ok t) : change f h w = (.ok (), w.withFiles t) := by
  unfold change
  rw [ht]
  rfl

theorem lift_failsInFiles (f : Host → Tree → Except FileError α) : (lift f).FailsInFiles := by
  intro h w x w' hx
  rw [lift_apply] at hx
  cases hf : f h w.files with
  | error e =>
    rw [hf] at hx
    cases hx
    exact ⟨e, rfl⟩
  | ok y =>
    rw [hf] at hx
    cases hx

theorem change_failsInFiles (f : Host → Tree → Except FileError Tree) :
    (change f).FailsInFiles := by
  intro h w x w' hx
  unfold change at hx
  split at hx
  · cases hx
  next e _ =>
    cases hx
    exact ⟨e, rfl⟩

theorem makeDirectories_failsInFiles (p : Path) : (makeDirectories p).FailsInFiles := by
  intro h w x w' hx
  unfold makeDirectories at hx
  dsimp only at hx
  split at hx
  · cases hx
  next e _ =>
    cases hx
    exact ⟨e, rfl⟩

theorem isThere_failsInFiles (p : Path) : (isThere p).FailsInFiles :=
  .bind (lift_failsInFiles _) fun _ => .pure _

end Files

/-! ### Files of a home -/

namespace Local

variable {home : Option Path} {h : Host} {w : World} {d : Path}

def IsFile (h : Host) (home : Option Path) (name : String) (p : Path) : Prop :=
  ∃ d, (home.getD usualHome).expandHome? h.home = some d ∧ p = d.child name

theorem home_of_some (hd : (home.getD usualHome).expandHome? h.home = some d) :
    Local.home home h w = (.ok d, w) :=
  Action.expandHome_of_some hd

end Local

end TeamVault
