import TeamVault.Path

/-!
Written paths. A path whose names can stand in a text is read back from its own text, so that a tool
finds the file that its arguments name.
-/
namespace TeamVault

namespace Text

variable {isMark : Char → Bool} {part : List Char}

theorem cut_of_no_mark (h : ∀ c ∈ part, isMark c = false) : cut isMark part = [part] := by
  induction part with
  | nil => rfl
  | cons c rest ih =>
    have hc := h c List.mem_cons_self
    have hr := ih fun d hd => h d (List.mem_cons_of_mem _ hd)
    simp only [cut, List.cons.injEq] at hr
    simp [cut, partsOf_cons, hc, hr.1, hr.2]

theorem cut_append_mark {mark : Char} (hm : isMark mark = true)
    (h : ∀ c ∈ part, isMark c = false) (cs : List Char) :
    cut isMark (part ++ mark :: cs) = part :: cut isMark cs := by
  induction part with
  | nil => simp [cut, partsOf_cons, hm]
  | cons c rest ih =>
    have hc := h c List.mem_cons_self
    have hr := ih fun d hd => h d (List.mem_cons_of_mem _ hd)
    simp only [cut, List.cons.injEq] at hr
    simp only [List.cons_append, cut, partsOf_cons, hc, hr.1, hr.2]
    simp

theorem cut_intercalate {mark : Char} {parts : List (List Char)} (hp : parts ≠ [])
    (h : ∀ part ∈ parts, mark ∉ part) :
    cut (· == mark) ([mark].intercalate parts) = parts := by
  have no_mark : ∀ part ∈ parts, ∀ c ∈ part, (c == mark) = false := by
    intro part hpart c hc
    rw [beq_eq_false_iff_ne]
    intro he
    exact h part hpart (he ▸ hc)
  induction parts with
  | nil => exact absurd rfl hp
  | cons part rest ih =>
    have hpart := no_mark part List.mem_cons_self
    cases rest with
    | nil => rw [List.intercalate_singleton, cut_of_no_mark hpart]
    | cons next more =>
      have hrest := ih (by simp) (fun p hm => h p (List.mem_cons_of_mem _ hm))
        fun p hm => no_mark p (List.mem_cons_of_mem _ hm)
      rw [List.intercalate_cons_cons, List.append_assoc, List.singleton_append,
        cut_append_mark (by simp) hpart, hrest]

end Text

namespace Path

def IsName (s : String) : Prop := s ≠ "" ∧ s ≠ "." ∧ '/' ∉ s.toList

instance (s : String) : Decidable (IsName s) := inferInstanceAs (Decidable (_ ∧ _ ∧ _))

def Proper (p : Path) : Prop := ∀ n ∈ p.names, IsName n

theorem proper_ofText (s : String) : (ofText s).Proper := by
  intro n hn
  simp only [ofText, List.mem_filter, List.mem_map, decide_eq_true_eq] at hn
  obtain ⟨⟨part, hp, rfl⟩, he, hd⟩ := hn
  refine ⟨he, hd, fun hm => ?_⟩
  have hmark := Text.isMark_of_mem_cut hp (by simpa using hm)
  simp at hmark

theorem Proper.join {p q : Path} (hp : p.Proper) (hq : q.Proper) : (p.join q).Proper := by
  unfold Path.join
  split
  · exact hq
  · intro n hn
    exact (List.mem_append.1 hn).elim (hp n) (hq n)

theorem Proper.child {p : Path} (hp : p.Proper) (name : String) : (p.child name).Proper :=
  hp.join (proper_ofText name)

def body (names : List String) : List Char := ['/'].intercalate (names.map String.toList)

theorem toList_join_names (names : List String) : ("/".intercalate names).toList = body names := by
  simp [body]

theorem head?_body {names : List String} (h : ∀ n ∈ names, IsName n) :
    (body names).head? ≠ some '/' := by
  cases names with
  | nil => simp [body]
  | cons n rest =>
    obtain ⟨hne, -, hs⟩ := h n List.mem_cons_self
    obtain ⟨c, cs, hc⟩ := List.exists_cons_of_ne_nil (mt String.toList_eq_nil_iff.1 hne)
    have hb : (body (n :: rest)).head? = some c := by
      cases rest <;> simp [body, hc]
    rw [hb]
    rintro ⟨⟩
    exact hs (hc ▸ List.mem_cons_self)

theorem names_of_body {names : List String} (h : ∀ n ∈ names, IsName n) :
    ((Text.cut (· == '/') (body names)).map String.ofList).filter (fun n => n ≠ "" ∧ n ≠ ".") =
      names := by
  cases names with
  | nil => rfl
  | cons n rest =>
    have hs : ∀ part ∈ (n :: rest).map String.toList, '/' ∉ part := by
      intro part hp
      obtain ⟨m, hm, rfl⟩ := List.mem_map.1 hp
      exact (h m hm).2.2
    have hcut : Text.cut (· == '/') (body (n :: rest)) = (n :: rest).map String.toList :=
      Text.cut_intercalate (by simp) hs
    have hid : (String.ofList ∘ String.toList) = id := funext fun s => String.ofList_toList
    rw [hcut, List.map_map, hid, List.map_id, List.filter_eq_self]
    intro m hm
    simpa using ⟨(h m hm).1, (h m hm).2.1⟩

theorem cut_slash (cs : List Char) :
    Text.cut (· == '/') ('/' :: cs) = [] :: Text.cut (· == '/') cs := by
  simp [Text.cut, Text.partsOf_cons]

theorem anchorOf_text_append {a : Anchor} {cs : List Char} (h : cs.head? ≠ some '/') :
    anchorOf ((Anchor.text a).toList ++ cs) = a := by
  have hroot : (Anchor.text .root).toList = ['/'] := rfl
  have hdouble : (Anchor.text .doubleRoot).toList = ['/', '/'] := rfl
  cases cs with
  | nil => cases a <;> rfl
  | cons c rest =>
    have hc : c ≠ '/' := by simpa using h
    cases a with
    | relative => simp [Anchor.text, anchorOf, hc]
    | root => simp [hroot, anchorOf, hc]
    | doubleRoot => simp [hdouble, anchorOf, hc]

theorem names_of_text_append {a : Anchor} (cs : List Char) :
    ((Text.cut (· == '/') ((Anchor.text a).toList ++ cs)).map String.ofList).filter
        (fun n => n ≠ "" ∧ n ≠ ".") =
      ((Text.cut (· == '/') cs).map String.ofList).filter (fun n => n ≠ "" ∧ n ≠ ".") := by
  have hroot : (Anchor.text .root).toList = ['/'] := rfl
  have hdouble : (Anchor.text .doubleRoot).toList = ['/', '/'] := rfl
  cases a with
  | relative => rfl
  | root => simp [hroot, cut_slash]
  | doubleRoot => simp [hdouble, cut_slash]

theorem ofText_toText {p : Path} (h : p.Proper) : ofText p.toText = p := by
  obtain ⟨anchor, names⟩ := p
  unfold toText
  split
  next hr =>
    obtain ⟨rfl, rfl⟩ := hr
    rfl
  next hr =>
    have htext : (Anchor.text anchor ++ "/".intercalate names).toList =
        (Anchor.text anchor).toList ++ body names := by
      rw [String.toList_append, toList_join_names]
    rw [ofText, htext, anchorOf_text_append (head?_body h), names_of_text_append,
      names_of_body h]

theorem ofText_name {s : String} (h : IsName s) : ofText s = ⟨.relative, [s]⟩ := by
  have hp : Proper ⟨.relative, [s]⟩ := fun n hn => List.mem_singleton.1 hn ▸ h
  have ht : toText ⟨.relative, [s]⟩ = s := by simp [toText, Anchor.text]
  simpa only [ht] using ofText_toText hp

theorem child_name {p : Path} {s : String} (h : IsName s) :
    p.child s = { p with names := p.names ++ [s] } := by
  rw [child, ofText_name h]
  rfl

end Path

end TeamVault
