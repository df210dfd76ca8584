import TeamVault.Proofs.Scratch
import Mathlib.Data.Set.Basic

/-!
Trees that differ at most in what some of their files hold. Names lead to the same places in both,
and every file operation ends alike in both; what is read outside the hidden places is the same.
-/
namespace TeamVault

def EndsAlike {ε α β : Type} (R : α → β → Prop) (r : Except ε α) (s : Except ε β) : Prop :=
  (∃ x y, r = .ok x ∧ s = .ok y ∧ R x y) ∨ ∃ e, r = .error e ∧ s = .error e

namespace EndsAlike

variable {ε ε' α β γ δ : Type} {R : α → β → Prop} {r : Except ε α} {s : Except ε β}

theorem ok {x : α} {y : β} (h : R x y) : EndsAlike R (.ok x : Except ε α) (.ok y) :=
  .inl ⟨x, y, rfl, rfl, h⟩

theorem error {e : ε} : EndsAlike R (.error e : Except ε α) (.error e : Except ε β) :=
  .inr ⟨e, rfl, rfl⟩

theorem refl {R : α → α → Prop} (hr : ∀ x, R x x) (r : Except ε α) : EndsAlike R r r := by
  cases r with
  | error e => exact error
  | ok x => exact ok (hr x)

theorem of_eq {r s : Except ε α} (h : r = s) : EndsAlike Eq r s := h ▸ refl (fun _ => rfl) r

theorem eq {r s : Except ε α} (h : EndsAlike Eq r s) : r = s := by
  obtain ⟨x, y, rfl, rfl, rfl⟩ | ⟨e, rfl, rfl⟩ := h <;> rfl

theorem bind {P : γ → δ → Prop} {f : α → Except ε γ} {g : β → Except ε δ} (h : EndsAlike R r s)
    (hf : ∀ x y, R x y → EndsAlike P (f x) (g y)) : EndsAlike P (r.bind f) (s.bind g) := by
  obtain ⟨x, y, rfl, rfl, hxy⟩ | ⟨e, rfl, rfl⟩ := h
  · exact hf x y hxy
  · exact error

theorem mapError (h : EndsAlike R r s) (f : ε → ε') :
    EndsAlike R (r.mapError f) (s.mapError f) := by
  obtain ⟨x, y, rfl, rfl, hxy⟩ | ⟨e, rfl, rfl⟩ := h
  · exact ok hxy
  · exact error

end EndsAlike

inductive Node.Alike : Node → Node → Prop
  | file (mode : Nat) (data data' : Bytes) : Alike (.file mode data) (.file mode data')
  | directory (mode : Nat) : Alike (.directory mode) (.directory mode)

namespace Node.Alike

variable {n m : Node}

theorem refl (n : Node) : n.Alike n := by
  cases n with
  | file mode data => exact .file mode data data
  | directory mode => exact .directory mode

theorem mode_eq (h : n.Alike m) : n.mode = m.mode := by
  cases h <;> rfl

theorem withMode (h : n.Alike m) (mode : Nat) : (n.withMode mode).Alike (m.withMode mode) := by
  cases h with
  | file old d d' => exact .file mode d d'
  | directory old => exact .directory mode

end Node.Alike

namespace Tree

variable {S T : Set Location} {t u : Tree} {here spot l : Location} {p : Path}

/-- Trees that differ at most in the bytes of files at hidden places. -/
structure Alike (S : Set Location) (t u : Tree) : Prop where
  nodes : ∀ l, Option.Rel Node.Alike (t.node? l) (u.node? l)
  shown : ∀ l, l ∉ S → t.node? l = u.node? l

def follow (spot : Location) (names : List String) : Location :=
  names.foldl (fun l name => if name = ".." then l.dropLast else l ++ [name]) spot

def destination (here : Location) (p : Path) : Location := follow (start here p) p.names

theorem follow_of_walk {names : List String} (h : t.walk spot names = .ok l) :
    follow spot names = l := by
  induction names generalizing spot with
  | nil =>
    cases h
    rfl
  | cons name rest ih =>
    rw [walk_cons (isDirectory_of_walk_cons h)] at h
    cases hc : checkName name with
    | error e =>
      rw [hc] at h
      cases h
    | ok _ =>
      rw [hc] at h
      exact ih h

theorem destination_of_locate (h : t.locate here p = .ok l) : destination here p = l := by
  unfold locate at h
  split at h
  · cases h
  · exact follow_of_walk h

namespace Alike

theorem refl (S : Set Location) (t : Tree) : Alike S t t := by
  refine ⟨fun l => ?_, fun l _ => rfl⟩
  cases t.node? l with
  | none => exact .none
  | some n => exact .some (.refl n)

theorem mono (h : Alike S t u) (hst : S ⊆ T) : Alike T t u :=
  ⟨h.nodes, fun l hl => h.shown l fun hs => hl (hst hs)⟩

variable (h : Alike S t u)
include h

theorem node_cases (l : Location) :
    (t.node? l = none ∧ u.node? l = none) ∨
      ∃ n m, t.node? l = some n ∧ u.node? l = some m ∧ n.Alike m ∧ (l ∉ S → n = m) := by
  have hn := h.nodes l
  have hs := h.shown l
  cases ht : t.node? l with
  | none =>
    rw [ht] at hn
    generalize u.node? l = y at hn
    cases hn
    exact .inl ⟨rfl, rfl⟩
  | some n =>
    cases hu : u.node? l with
    | none =>
      rw [ht, hu] at hn
      cases hn
    | some m =>
      rw [ht, hu] at hn hs
      cases hn with
      | some ha => exact .inr ⟨n, m, rfl, rfl, ha, fun hl => Option.some.inj (hs hl)⟩

theorem walk_eq (spot : Location) (names : List String) :
    t.walk spot names = u.walk spot names := by
  induction names generalizing spot with
  | nil => rfl
  | cons name rest ih =>
    rw [walk, walk]
    obtain ⟨ht, hu⟩ | ⟨n, m, ht, hu, ha, -⟩ := h.node_cases spot
    · rw [ht, hu]
    · rw [ht, hu]
      cases ha with
      | file mode d d' => rfl
      | directory mode => simp only [ih]

theorem locate_eq (here : Location) (p : Path) : t.locate here p = u.locate here p := by
  unfold locate
  rw [h.walk_eq]

theorem find (here : Location) (p : Path) :
    EndsAlike (fun x y => x.1 = destination here p ∧ y.1 = x.1 ∧ x.2.Alike y.2 ∧
      (destination here p ∉ S → x.2 = y.2)) (t.find here p) (u.find here p) := by
  rw [find_eq, find_eq, ← h.locate_eq]
  cases hl : t.locate here p with
  | error e => exact .error
  | ok l =>
    simp only [Except.bind, destination_of_locate hl]
    obtain ⟨ht, hu⟩ | ⟨n, m, ht, hu, ha, hs⟩ := h.node_cases l
    · rw [ht, hu]
      exact .error
    · rw [ht, hu]
      exact .ok ⟨rfl, rfl, ha, hs⟩

theorem probe (here : Location) (p : Path) :
    EndsAlike (Option.Rel Node.Alike) (t.probe here p) (u.probe here p) := by
  unfold Tree.probe
  obtain ⟨⟨l, n⟩, ⟨k, m⟩, ht, hu, -, -, ha, -⟩ | ⟨e, ht, hu⟩ := h.find here p
  · rw [ht, hu]
    exact .ok (.some ha)
  · rw [ht, hu]
    cases e with
    | nameTooLong => exact .error
    | _ => exact .ok .none

theorem read_eq (hp : destination here p ∉ S) : t.read here p = u.read here p := by
  unfold Tree.read
  obtain ⟨⟨l, n⟩, ⟨k, m⟩, ht, hu, -, hl, -, hs⟩ | ⟨e, ht, hu⟩ := h.find here p
  · dsimp only at hl hs
    rw [ht, hu, hl, hs hp]
  · rw [ht, hu]

section Changes

variable {n m : Node}

theorem put (ha : n.Alike m) (hs : n = m ∨ l ∈ S) : Alike S (t.put l n) (u.put l m) := by
  refine ⟨fun k => ?_, fun k hk => ?_⟩
  · rw [node?_put, node?_put]
    split
    · exact .some ha
    · exact h.nodes k
  · rw [node?_put, node?_put]
    split
    next he =>
      obtain rfl | hl := hs
      · rfl
      · exact absurd (he ▸ hl) hk
    · exact h.shown k hk

theorem put_same (l : Location) (n : Node) : Alike S (t.put l n) (u.put l n) :=
  h.put (.refl n) (.inl rfl)

theorem remove (l : Location) : Alike S (t.remove l) (u.remove l) := by
  refine ⟨fun k => ?_, fun k hk => ?_⟩
  · rw [node?_remove, node?_remove]
    split
    · exact .none
    · exact h.nodes k
  · rw [node?_remove, node?_remove, h.shown k hk]

theorem write {data data' : Bytes} (mode : Option Nat)
    (hd : data = data' ∨ destination here p ∈ S) :
    EndsAlike (Alike S) (t.write here p mode data) (u.write here p mode data') := by
  unfold Tree.write
  rw [← h.locate_eq]
  cases hl : t.locate here p with
  | error e => exact .error
  | ok l =>
    rw [destination_of_locate hl] at hd
    have hput : ∀ k, Alike S (t.put l (.file k data)) (u.put l (.file k data')) := by
      intro k
      refine h.put (.file k data data') (hd.imp_left ?_)
      rintro rfl
      rfl
    simp only [bind, Except.bind]
    obtain ⟨ht, hu⟩ | ⟨n, m, ht, hu, ha, -⟩ := h.node_cases l
    · rw [ht, hu]
      obtain ⟨ht, hu⟩ | ⟨n, m, ht, hu, ha, -⟩ := h.node_cases l.dropLast
      · rw [ht, hu]
        exact .error
      · rw [ht, hu]
        cases ha with
        | file k d d' => exact .error
        | directory k => exact .ok (hput _)
    · rw [ht, hu]
      cases ha with
      | file k d d' => exact .ok (hput _)
      | directory k => exact .error

theorem setMode (here : Location) (p : Path) (mode : Nat) :
    EndsAlike (Alike S) (t.setMode here p mode) (u.setMode here p mode) := by
  refine (h.find here p).bind ?_
  rintro ⟨l, n⟩ ⟨k, m⟩ ⟨hl, hk, ha, hs⟩
  dsimp only at hl hk hs
  subst hl hk
  refine .ok (h.put (ha.withMode mode) ?_)
  by_cases hd : destination here p ∈ S
  · exact .inr hd
  · exact .inl (by rw [hs hd])

theorem makeDirectory (here : Location) (p : Path) (mode : Nat) :
    EndsAlike (Alike S) (t.makeDirectory here p mode) (u.makeDirectory here p mode) := by
  unfold Tree.makeDirectory
  rw [← h.locate_eq]
  cases hl : t.locate here p with
  | error e => exact .error
  | ok l =>
    simp only [bind, Except.bind]
    obtain ⟨ht, hu⟩ | ⟨n, m, ht, hu, -, -⟩ := h.node_cases l
    · rw [ht, hu]
      exact .ok (h.put_same l _)
    · rw [ht, hu]
      exact .error

omit h in
theorem makeAlong (h : Alike S t u) (spot : Location) (names : List String) :
    Alike S (t.makeAlong spot names).1 (u.makeAlong spot names).1 ∧
      (t.makeAlong spot names).2 = (u.makeAlong spot names).2 := by
  induction names generalizing t u spot with
  | nil => exact ⟨h, rfl⟩
  | cons name rest ih =>
    rw [Tree.makeAlong, Tree.makeAlong]
    cases checkName name with
    | error e => exact ⟨h, rfl⟩
    | ok _ =>
      dsimp only
      obtain ⟨ht, hu⟩ | ⟨n, m, ht, hu, ha, -⟩ :=
        h.node_cases (if name = ".." then spot.dropLast else spot ++ [name])
      · rw [ht, hu]
        exact ih (h.put_same _ _) _
      · rw [ht, hu]
        cases ha with
        | file mode d d' => exact ⟨h, rfl⟩
        | directory mode => exact ih h _

theorem makeDirectories (here : Location) (p : Path) :
    Alike S (t.makeDirectories here p).1 (u.makeDirectories here p).1 ∧
      (t.makeDirectories here p).2 = (u.makeDirectories here p).2 := by
  unfold Tree.makeDirectories
  split
  · exact ⟨h, rfl⟩
  · exact h.makeAlong _ _

end Changes

end Alike

end Tree

end TeamVault
