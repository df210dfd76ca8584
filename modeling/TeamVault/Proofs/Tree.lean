import TeamVault.Files.Tree
import Mathlib.Data.List.Induction

/-!
How file trees change. In a sound tree every entry stands in a directory, so nothing lies below a
free location; a directory made there and removed again leaves the tree as it was. What is written
inside it in the meantime is private.
-/
namespace TeamVault.Tree

variable {t u base : Tree} {here spot l : Location} {n : Node} {p : Path}

def IsDirectory (t : Tree) (l : Location) : Prop := ∃ m, t.node? l = some (.directory m)

theorem isDirectory_put_of_ne {other : Location} (h : other ≠ l) :
    (t.put l n).IsDirectory other ↔ t.IsDirectory other := by
  simp only [IsDirectory, node?_put, if_neg h]

/-- A tree as a file system has it: every entry stands in a directory, and so does who looks. -/
structure Sound (t : Tree) (here : Location) : Prop where
  here_isDirectory : t.IsDirectory here
  parent_isDirectory : ∀ {l n}, t.node? l = some n → l ≠ [] → t.IsDirectory l.dropLast

namespace Sound

theorem above {more : List String} (hs : t.Sound here) (h : t.node? (l ++ more) = some n)
    (hm : more ≠ []) : t.IsDirectory l := by
  induction more using List.reverseRecOn generalizing n with
  | nil => exact absurd rfl hm
  | append_singleton more x ih =>
    have hp := hs.parent_isDirectory h (by simp)
    rw [← List.append_assoc, List.dropLast_concat] at hp
    by_cases he : more = []
    · simpa [he] using hp
    · obtain ⟨m, hd⟩ := hp
      exact ih hd he

theorem root (mode : Nat) : Sound ⟨[([], .directory mode)]⟩ [] := by
  refine ⟨⟨mode, rfl⟩, fun {l n} hn hl => ?_⟩
  simp [node?, nodeIn?, Ne.symm hl] at hn

theorem from_directory (hs : t.Sound here) (hl : t.IsDirectory l) : t.Sound l :=
  ⟨hl, hs.parent_isDirectory⟩

theorem root_isDirectory (hs : t.Sound here) : t.IsDirectory [] := by
  obtain ⟨m, hd⟩ := hs.here_isDirectory
  by_cases h : here = []
  · exact ⟨m, h ▸ hd⟩
  · have hn : t.node? ([] ++ here) = some (.directory m) := hd
    exact hs.above hn h

theorem start_isDirectory (hs : t.Sound here) (p : Path) : t.IsDirectory (start here p) := by
  unfold start
  split
  · exact hs.root_isDirectory
  · exact hs.here_isDirectory

theorem free_below (hs : t.Sound here) (hl : t.node? l = none) {other : Location}
    (h : l <+: other) : t.node? other = none := by
  obtain ⟨more, rfl⟩ := h
  by_cases hm : more = []
  · simpa [hm] using hl
  cases hn : t.node? (l ++ more) with
  | none => rfl
  | some n =>
    obtain ⟨m, hd⟩ := hs.above hn hm
    rw [hl] at hd
    cases hd

end Sound

section Walking

def KeepsDirectories (t u : Tree) : Prop := ∀ l, t.IsDirectory l → u.IsDirectory l

theorem KeepsDirectories.refl (t : Tree) : KeepsDirectories t t := fun _ h => h

theorem KeepsDirectories.trans {v : Tree} (h : KeepsDirectories t u) (k : KeepsDirectories u v) :
    KeepsDirectories t v := fun l hl => k l (h l hl)

theorem keepsDirectories_put (h : ¬ t.IsDirectory l) (n : Node) :
    KeepsDirectories t (t.put l n) := by
  intro other hd
  have hne : other ≠ l := fun he => h (he ▸ hd)
  exact (isDirectory_put_of_ne hne).2 hd

theorem walk_cons {name : String} {rest : List String} (hd : t.IsDirectory spot) :
    t.walk spot (name :: rest) = (checkName name).bind fun _ =>
      t.walk (if name = ".." then spot.dropLast else spot ++ [name]) rest := by
  obtain ⟨m, hm⟩ := hd
  rw [walk, hm]
  rfl

theorem isDirectory_of_walk_cons {name : String} {rest : List String}
    (h : t.walk spot (name :: rest) = .ok l) : t.IsDirectory spot := by
  rw [walk] at h
  split at h
  · cases h
  · cases h
  · exact ⟨_, ‹_›⟩

theorem walk_mono (hk : KeepsDirectories t u) {names : List String}
    (h : t.walk spot names = .ok l) : u.walk spot names = .ok l := by
  induction names generalizing spot with
  | nil => exact h
  | cons name rest ih =>
    have hd := isDirectory_of_walk_cons h
    rw [walk_cons hd] at h
    rw [walk_cons (hk spot hd)]
    cases hc : checkName name with
    | error e =>
      rw [hc] at h
      cases h
    | ok _ =>
      rw [hc] at h
      exact ih h

theorem locate_mono (hk : KeepsDirectories t u) (h : t.locate here p = .ok l) :
    u.locate here p = .ok l := by
  unfold locate at h ⊢
  split at h
  · cases h
  · rw [if_neg ‹_›]
    exact walk_mono hk h

theorem Sound.walk_isDirectory (hs : t.Sound here) {names : List String}
    (hd : t.IsDirectory spot ∨ spot ≠ [] ∧ t.IsDirectory spot.dropLast)
    (h : t.walk spot names = .ok l) : t.IsDirectory l ∨ l ≠ [] ∧ t.IsDirectory l.dropLast := by
  induction names generalizing spot with
  | nil =>
    cases h
    exact hd
  | cons name rest ih =>
    have hspot := isDirectory_of_walk_cons h
    rw [walk_cons hspot] at h
    cases hc : checkName name with
    | error e =>
      rw [hc] at h
      cases h
    | ok _ =>
      rw [hc] at h
      refine ih ?_ h
      by_cases hn : name = ".."
      · rw [if_pos hn]
        by_cases he : spot = []
        · exact .inl (by simpa [he] using hs.root_isDirectory)
        · obtain ⟨m, hm⟩ := hspot
          exact .inl (hs.parent_isDirectory hm he)
      · rw [if_neg hn]
        exact .inr ⟨by simp, by simpa using hspot⟩

theorem Sound.locate_isDirectory (hs : t.Sound here) (h : t.locate here p = .ok l) :
    t.IsDirectory l ∨ l ≠ [] ∧ t.IsDirectory l.dropLast := by
  unfold locate at h
  split at h
  · cases h
  · exact hs.walk_isDirectory (.inl (hs.start_isDirectory p)) h

end Walking

section Putting

theorem Sound.put (hs : t.Sound here) (hl : ¬ t.IsDirectory l) (hd : t.IsDirectory l.dropLast)
    (n : Node) : (t.put l n).Sound here := by
  have hk := keepsDirectories_put hl n
  refine ⟨hk here hs.here_isDirectory, ?_⟩
  intro other m hm ho
  rw [node?_put] at hm
  by_cases he : other = l
  · exact he ▸ hk l.dropLast hd
  · rw [if_neg he] at hm
    exact hk _ (hs.parent_isDirectory hm ho)

theorem mem_node? {es : List (Location × Node)} {e : Location × Node} (h : e ∈ es) :
    nodeIn? e.1 es ≠ none := by
  induction es with
  | nil => exact absurd h List.not_mem_nil
  | cons d rest ih =>
    obtain ⟨k, m⟩ := d
    rw [nodeIn?]
    split
    · simp
    · rcases List.mem_cons.1 h with rfl | h
      · exact absurd rfl ‹_›
      · exact ih h

theorem remove_of_free (h : ∀ other, l <+: other → t.node? other = none) : t.remove l = t := by
  have hf : t.entries.filter (fun e => !l.isPrefixOf e.1) = t.entries := by
    rw [List.filter_eq_self]
    intro e he
    by_contra hc
    have hp : l <+: e.1 := by simpa using hc
    exact mem_node? he (h e.1 hp)
  rw [remove, hf]

theorem filter_putEntry {keep : Location × Node → Bool} (hk : ∀ m, keep (l, m) = false)
    (es : List (Location × Node)) : (putEntry l n es).filter keep = es.filter keep := by
  induction es with
  | nil => simp [putEntry, hk]
  | cons e rest ih =>
    obtain ⟨k, m⟩ := e
    rw [putEntry]
    by_cases h : k = l
    · simp [h, hk]
    · simp [h, List.filter_cons, ih]

theorem remove_put (h : spot <+: l) (n : Node) : (t.put l n).remove spot = t.remove spot := by
  unfold put remove
  rw [filter_putEntry]
  intro m
  simpa using h

end Putting

section Writing

variable {mode : Nat} {data : Bytes}

theorem write_eq_ok (h : t.write here p (some mode) data = .ok u) :
    ∃ l, t.locate here p = .ok l ∧ ¬ t.IsDirectory l ∧
      (t.node? l ≠ none ∨ t.IsDirectory l.dropLast) ∧ u = t.put l (.file mode data) := by
  unfold write at h
  cases hl : t.locate here p with
  | error e =>
    rw [hl] at h
    cases h
  | ok l =>
    rw [hl] at h
    refine ⟨l, rfl, ?_⟩
    simp only [bind, Except.bind] at h
    split at h
    · cases h
    · cases h
      exact ⟨by simp_all [IsDirectory], .inl (by simp_all), rfl⟩
    · cases h
      exact ⟨by simp_all [IsDirectory], .inr ⟨_, ‹_›⟩, rfl⟩
    · cases h

theorem find_eq (t : Tree) (here : Location) (p : Path) :
    t.find here p = (t.locate here p).bind fun l => match t.node? l with
      | some n => .ok (l, n)
      | none => .error .notFound := rfl

theorem find_of_locate (hl : t.locate here p = .ok l) (hn : t.node? l = some n) :
    t.find here p = .ok (l, n) := by
  simp only [find_eq, hl, Except.bind, hn]

theorem locate_of_find (h : t.find here p = .ok (l, n)) :
    t.locate here p = .ok l ∧ t.node? l = some n := by
  rw [find_eq] at h
  cases hl : t.locate here p with
  | error e =>
    rw [hl] at h
    cases h
  | ok k =>
    simp only [hl, Except.bind] at h
    split at h
    · cases h
      exact ⟨rfl, ‹_›⟩
    · cases h

theorem find_write (h : t.write here p (some mode) data = .ok u) :
    ∃ l, u.find here p = .ok (l, .file mode data) := by
  obtain ⟨l, hl, hd, -, rfl⟩ := write_eq_ok h
  exact ⟨l, find_of_locate (locate_mono (keepsDirectories_put hd _) hl) (by simp [node?_put])⟩

theorem Sound.write (hs : t.Sound here) (h : t.write here p (some mode) data = .ok u) :
    u.Sound here := by
  obtain ⟨l, hl, hd, -, rfl⟩ := write_eq_ok h
  obtain hc | ⟨-, hp⟩ := hs.locate_isDirectory hl
  · exact absurd hc hd
  · exact hs.put hd hp _

theorem Sound.makeAlong (hs : t.Sound here) {names : List String} (hd : t.IsDirectory spot) :
    (t.makeAlong spot names).1.Sound here := by
  induction names generalizing t spot with
  | nil => exact hs
  | cons name rest ih =>
    rw [Tree.makeAlong]
    cases hc : checkName name with
    | error e => exact hs
    | ok _ =>
      dsimp only
      split
      · exact ih hs ⟨_, ‹_›⟩
      · exact hs
      next hn =>
        obtain ⟨m, hm⟩ := hd
        by_cases hdots : name = ".."
        · rw [if_pos hdots] at hn
          have hup : t.IsDirectory spot.dropLast := by
            by_cases he : spot = []
            · exact ⟨m, by simpa [he] using hm⟩
            · exact hs.parent_isDirectory hm he
          obtain ⟨k, hk⟩ := hup
          rw [hn] at hk
          cases hk
        · rw [if_neg hdots] at hn ⊢
          have hfree : ¬ t.IsDirectory (spot ++ [name]) := by
            rintro ⟨k, hk⟩
            rw [hn] at hk
            cases hk
          refine ih (hs.put hfree (by simpa using ⟨m, hm⟩) _) ⟨0o755, ?_⟩
          simp [node?_put]

theorem Sound.makeDirectories (hs : t.Sound here) (p : Path) :
    (t.makeDirectories here p).1.Sound here := by
  unfold Tree.makeDirectories
  split
  · exact hs
  · exact hs.makeAlong (hs.start_isDirectory p)

end Writing

section Privacy

/-- The tree holds all of `base`. Whatever else is in it only its owner may use: a directory, or a
file in a directory that is not in `base` either. -/
structure AddsPrivately (base t : Tree) : Prop where
  kept : ∀ {l n}, base.node? l = some n → t.node? l = some n
  added : ∀ {l n}, base.node? l = none → t.node? l = some n → n = .directory 0o700 ∨
    (∃ data, n = .file 0o600 data) ∧ base.node? l.dropLast = none ∧
      t.node? l.dropLast = some (.directory 0o700)

namespace AddsPrivately

theorem refl (t : Tree) : AddsPrivately t t := ⟨id, fun hn hs => by simp [hn] at hs⟩

theorem trans {v : Tree} (h : AddsPrivately t u) (k : AddsPrivately u v) : AddsPrivately t v := by
  refine ⟨fun hn => k.kept (h.kept hn), ?_⟩
  intro l n hfree hn
  cases hu : u.node? l with
  | some m =>
    have hm : m = n := by simpa [k.kept hu] using hn
    subst hm
    obtain hd | ⟨hf, hp, hd⟩ := h.added hfree hu
    · exact .inl hd
    · exact .inr ⟨hf, hp, k.kept hd⟩
  | none =>
    obtain hd | ⟨hf, hp, hd⟩ := k.added hu hn
    · exact .inl hd
    · refine .inr ⟨hf, ?_, hd⟩
      cases ht : t.node? l.dropLast with
      | none => rfl
      | some m => simp [h.kept ht] at hp

theorem put_directory (h : t.node? l = none) : AddsPrivately t (t.put l (.directory 0o700)) := by
  refine ⟨fun {k m} hm => ?_, fun {k m} hfree hm => ?_⟩
  · have hne : k ≠ l := by
      rintro rfl
      simp [h] at hm
    simpa [node?_put, hne] using hm
  · rw [node?_put] at hm
    split at hm
    · exact .inl (by simpa using hm.symm)
    · simp [hfree] at hm

theorem put_file (h : AddsPrivately base t) (hl : t.node? l = none)
    (hp : base.node? l.dropLast = none) (hd : t.node? l.dropLast = some (.directory 0o700))
    (data : Bytes) : AddsPrivately base (t.put l (.file 0o600 data)) := by
  have keeps : ∀ {k m}, t.node? k = some m → (t.put l (.file 0o600 data)).node? k = some m := by
    intro k m hm
    have hne : k ≠ l := by
      rintro rfl
      simp [hl] at hm
    simpa [node?_put, hne] using hm
  refine ⟨fun hm => keeps (h.kept hm), fun {k m} hfree hm => ?_⟩
  by_cases he : k = l
  · subst he
    simp only [node?_put, if_true, Option.some.injEq] at hm
    exact .inr ⟨⟨data, hm.symm⟩, hp, keeps hd⟩
  · rw [node?_put, if_neg he] at hm
    obtain hdir | ⟨hf, hb, hd⟩ := h.added hfree hm
    · exact .inl hdir
    · exact .inr ⟨hf, hb, keeps hd⟩

theorem find (h : AddsPrivately t u) (hf : t.find here p = .ok (l, n)) :
    u.find here p = .ok (l, n) := by
  obtain ⟨hl, hn⟩ := locate_of_find hf
  have hk : KeepsDirectories t u := fun k ⟨m, hm⟩ => ⟨m, h.kept hm⟩
  exact find_of_locate (locate_mono hk hl) (h.kept hn)

end AddsPrivately

end Privacy

end TeamVault.Tree
