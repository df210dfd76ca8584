import TeamVault.Json.Reader
import TeamVault.Json.Writer
import Mathlib.Data.Bool.AllAny
import Mathlib.Data.List.Basic
import Mathlib.Data.List.Induction

/-!
Objects of texts and nulls, as the records of local state are kept, are read back from their lines:
every character of a text is written so that the reader finds it again.
-/
namespace TeamVault.Json

theorem not_isHalf_toNat (c : Char) : isHalf c.toNat = false := by
  have hv := c.valid
  simp only [isHalf, Bool.and_eq_false_imp, decide_eq_true_eq, decide_eq_false_iff_not]
  intro h1 h2
  simp only [UInt32.isValidChar, Nat.isValidChar] at hv
  have hnat : c.toNat = c.val.toNat := rfl
  omega

theorem shownText_toNat (cs : List Char) : shownText (cs.map Char.toNat) = String.ofList cs := by
  rw [shownText, List.map_map]
  congr 1
  refine (List.map_congr_left fun c _ => ?_).trans (List.map_id cs)
  simp only [Function.comp_apply, not_isHalf_toNat, Bool.false_eq_true, if_false, id_eq]
  exact Char.ofNat_toNat c

theorem ofCodes_toNat (s : String) : ofCodes (s.toList.map Char.toNat) = .text s := by
  have hh : (s.toList.map Char.toNat).any isHalf = false := by
    simp [not_isHalf_toNat]
  rw [ofCodes, hh, shownText_toNat, String.ofList_toList]
  rfl

theorem setField_of_not_mem {key : String} {value : Json} {fields : Fields}
    (hk : key ∉ fields.map Prod.fst) : setField key value fields = fields ++ [(key, value)] := by
  induction fields with
  | nil => rfl
  | cons f rest ih =>
    obtain ⟨k, v⟩ := f
    simp only [List.map_cons, List.mem_cons, not_or] at hk
    rw [setField, if_neg (Ne.symm hk.1), ih hk.2]
    rfl

theorem ofMembers_of_nodup {fields : Fields} (hk : (fields.map Prod.fst).Nodup) :
    Fields.ofMembers fields = fields := by
  induction fields using List.reverseRecOn with
  | nil => rfl
  | append_singleton rest f ih =>
    rw [List.map_append, List.nodup_append] at hk
    obtain ⟨hrest, -, hnew⟩ := hk
    have hr := ih hrest
    unfold Fields.ofMembers at hr ⊢
    rw [List.foldl_append, hr]
    exact setField_of_not_mem fun hm => hnew _ hm f.1 (by simp) rfl

namespace Reader

theorem hexValue?_hexDigit : ∀ n < 16, hexValue? (Text.hexDigit n) = some n := by decide

theorem hex4?_hex {n : Nat} (hn : n < 65536) (rest : List Char) :
    hex4? (Text.hex 4 n ++ rest) = some (n, rest) := by
  have hd : ∀ m, hexValue? (Text.hexDigit (m % 16)) = some (m % 16) :=
    fun m => hexValue?_hexDigit _ (Nat.mod_lt _ (by omega))
  simp only [Text.hex, List.nil_append, List.cons_append, hex4?, hd]
  simp only [bind, Option.bind, Option.some.injEq, Prod.mk.injEq, and_true]
  omega

theorem string_escapeChar (fuel : Nat) (seen : List Nat) (c : Char) (rest : List Char) :
    string (fuel + 1) seen (escapeChar c ++ rest) = string fuel (c.toNat :: seen) rest := by
  -- one case for each branch of the writer
  unfold escapeChar
  split
  next hquote =>
    subst hquote
    rfl
  split
  next hslash =>
    subst hslash
    rfl
  split
  next hfeed =>
    subst hfeed
    rfl
  split
  next hreturn =>
    subst hreturn
    rfl
  split
  next htab =>
    subst htab
    rfl
  split
  next hback =>
    obtain rfl : c = '\x08' := Char.ext (UInt32.toNat_inj.1 hback)
    rfl
  split
  next hform =>
    obtain rfl : c = '\x0c' := Char.ext (UInt32.toNat_inj.1 hform)
    rfl
  split
  next hcontrol =>
    have hread : codeEscape? (Text.hex 4 c.toNat ++ rest) = some (c.toNat, rest) := by
      simp only [codeEscape?, hex4?_hex (by omega : c.toNat < 65536)]
      simp only [bind, Option.bind]
      rw [if_neg (by omega)]
    simp only [List.cons_append, string]
    simp [hread, require, bind, Except.bind]
  next hquote hslash _ _ _ _ _ hplain =>
    simp only [List.cons_append, List.nil_append, string]
    rw [if_neg hquote, if_neg hslash, if_neg hplain]

theorem string_flatMap {fuel : Nat} {seen : List Nat} {cs rest : List Char}
    (hf : cs.length < fuel) :
    string fuel seen (cs.flatMap escapeChar ++ '"' :: rest) =
      .ok (seen.reverse ++ cs.map Char.toNat, rest) := by
  induction cs generalizing fuel seen with
  | nil =>
    obtain ⟨fuel, rfl⟩ := Nat.exists_eq_add_of_lt hf
    simp [string]
  | cons c cs ih =>
    simp only [List.length_cons] at hf
    obtain ⟨fuel, rfl⟩ : ∃ m, fuel = m + 1 := ⟨fuel - 1, by omega⟩
    rw [List.flatMap_cons, List.append_assoc, string_escapeChar, ih (by omega)]
    simp

theorem length_le_flatMap_escapeChar (cs : List Char) :
    cs.length ≤ (cs.flatMap escapeChar).length := by
  have h1 : ∀ c, 1 ≤ (escapeChar c).length := by
    intro c
    unfold escapeChar
    split_ifs <;> simp
  induction cs with
  | nil => simp
  | cons c cs ih =>
    have hc := h1 c
    simp only [List.flatMap_cons, List.length_append, List.length_cons]
    omega

theorem string_quoted (s : String) (rest : List Char) :
    let cs := s.toList.flatMap escapeChar ++ '"' :: rest
    string (cs.length + 1) [] cs = .ok (s.toList.map Char.toNat, rest) := by
  have hl := length_le_flatMap_escapeChar s.toList
  refine string_flatMap ?_
  simp only [List.length_append, List.length_cons]
  omega

end Reader

inductive IsPlain : Json → Prop
  | null : IsPlain null
  | text (s : String) : IsPlain (text s)

namespace Reader

theorem toList_stringText (s : String) :
    (stringText s).toList = '"' :: (s.toList.flatMap escapeChar ++ ['"']) := by
  simp [stringText]

theorem value_compact {v : Json} (hv : v.IsPlain) (fuel : Nat) (rest : List Char) :
    value (fuel + 1) (v.compact.toList ++ rest) = .ok (v, rest) := by
  cases hv with
  | null => rfl
  | text s =>
    rw [compact, toList_stringText]
    simp only [List.cons_append, List.append_assoc, List.nil_append, value]
    rw [string_quoted]
    simp only [bind, Except.bind, pure, Except.pure, ofCodes_toNat]

theorem skipGap_compact {v : Json} (hv : v.IsPlain) (rest : List Char) :
    skipGap (v.compact.toList ++ rest) = v.compact.toList ++ rest := by
  cases hv with
  | null => rfl
  | text s =>
    rw [compact, toList_stringText]
    rfl

theorem members_cons {v : Json} (hv : v.IsPlain) (fuel : Nat) (seen : Fields) (k : String)
    {rest more : List Char} {d : Char} (hr : skipGap rest = d :: more) :
    members (fuel + 2) seen ((stringText k).toList ++ ':' :: ' ' :: (v.compact.toList ++ rest)) =
      if d = ',' then members (fuel + 1) ((k, v) :: seen) (skipGap more)
      else if d.toNat = 0x7D then .ok (.object (Fields.ofMembers ((k, v) :: seen).reverse), more)
      else .error .malformed := by
  have hcolon : ∀ cs, skipGap (':' :: cs) = ':' :: cs := fun cs => rfl
  have hblank : ∀ cs, skipGap (' ' :: cs) = skipGap cs := fun cs => rfl
  simp only [toList_stringText, List.cons_append, List.append_assoc, List.nil_append]
  rw [members]
  simp only [string_quoted, bind, Except.bind, pure, Except.pure, hcolon, hblank,
    skipGap_compact hv, value_compact hv, shownText_toNat, String.ofList_toList, hr]
  by_cases hd : d = ','
  · subst hd
    rfl
  · rw [if_neg hd]
    split
    next heq => exact absurd (List.cons.inj heq).1 hd
    next heq =>
      obtain ⟨rfl, rfl⟩ := List.cons.inj heq
      rfl
    next heq => cases heq

def fieldLine (f : String × Json) : List Char :=
  ' ' :: ' ' :: ((stringText f.1).toList ++ ':' :: ' ' :: f.2.compact.toList)

theorem skipGap_fieldLine (f : String × Json) (rest : List Char) :
    skipGap ('\n' :: (fieldLine f ++ rest)) =
      (stringText f.1).toList ++ ':' :: ' ' :: (f.2.compact.toList ++ rest) := by
  simp [fieldLine, toList_stringText, skipGap, isGap]

theorem exists_quote (f : String × Json) (rest : Fields) :
    ∃ more, skipGap ('\n' ::
      ([',', '\n'].intercalate ((f :: rest).map fieldLine) ++ ['\n', '\x7d'])) = '"' :: more := by
  have hf : ∀ cs, ∃ more, skipGap ('\n' :: (fieldLine f ++ cs)) = '"' :: more := fun cs => by
    rw [skipGap_fieldLine, toList_stringText]
    exact ⟨_, rfl⟩
  cases rest with
  | nil =>
    rw [List.map_singleton, List.intercalate_singleton]
    exact hf ['\n', '\x7d']
  | cons g rest =>
    rw [List.map_cons, List.map_cons, List.intercalate_cons_cons, List.append_assoc,
      List.append_assoc]
    exact hf _

theorem value_brace {cs more : List Char} (hc : skipGap cs = '"' :: more) (fuel : Nat) :
    value (fuel + 1) ('\x7b' :: cs) = members fuel [] (skipGap cs) := by
  rw [value, hc]
  · rfl
  · decide
  · decide

theorem members_fieldLines {fields : Fields} {f : String × Json} {fuel : Nat}
    (hv : ∀ g ∈ f :: fields, g.2.IsPlain) (hf : fields.length + 2 ≤ fuel) (seen : Fields) :
    members fuel seen (skipGap ('\n' ::
        ([',', '\n'].intercalate ((f :: fields).map fieldLine) ++ ['\n', '\x7d']))) =
      .ok (.object (Fields.ofMembers (seen.reverse ++ f :: fields)), []) := by
  have hp : f.2.IsPlain := hv f List.mem_cons_self
  obtain ⟨fuel, rfl⟩ := Nat.exists_eq_add_of_le' (show 2 ≤ fuel by omega)
  -- one field after another; those that were read before are in `seen`, last one first
  induction fields generalizing seen f fuel with
  | nil =>
    have hend : skipGap ['\n', '\x7d'] = ['\x7d'] := rfl
    rw [List.map_singleton, List.intercalate_singleton, skipGap_fieldLine,
      members_cons hp _ _ _ hend, if_neg (by decide), if_pos (by decide), List.reverse_cons]
  | cons g fields ih =>
    have hcomma : ∀ cs, skipGap (',' :: cs) = ',' :: cs := fun cs => rfl
    have hg : ∀ x ∈ g :: fields, x.2.IsPlain := fun x hx => hv x (List.mem_cons_of_mem _ hx)
    obtain ⟨fuel, rfl⟩ := Nat.exists_eq_add_of_le' (show 1 ≤ fuel by simp at hf; omega)
    have hrest := ih hg (f :: seen) (hg g List.mem_cons_self) fuel
      (by simp only [List.length_cons] at hf; omega)
    rw [List.map_cons, List.map_cons, List.intercalate_cons_cons, ← List.map_cons,
      List.append_assoc, List.append_assoc, skipGap_fieldLine, List.cons_append, List.cons_append,
      List.nil_append, members_cons hp _ _ _ (hcomma _), if_pos rfl, hrest, List.reverse_cons,
      List.append_assoc, List.singleton_append]

end Reader

open Reader (fieldLine)

theorem toList_indented (fields : Fields) :
    (indented fields).toList = '\x7b' :: '\n' ::
      ([',', '\n'].intercalate (fields.map fieldLine) ++ ['\n', '\x7d']) := by
  have hline : ∀ f : String × Json, fieldLine f =
      ' ' :: ' ' :: ((stringText f.1).toList ++ ':' :: ' ' :: f.2.compact.toList) := fun _ => rfl
  simp [indented, funext hline, Function.comp_def]

theorem length_le_intercalate_fieldLine (fields : Fields) :
    fields.length ≤ ([',', '\n'].intercalate (fields.map fieldLine)).length := by
  induction fields with
  | nil => simp
  | cons f rest ih =>
    cases rest with
    | nil => simp [fieldLine]
    | cons g rest =>
      rw [List.map_cons, List.map_cons, List.intercalate_cons_cons, ← List.map_cons]
      simp only [List.length_append, List.length_cons, fieldLine] at ih ⊢
      omega

theorem ofText_indented {fields : Fields} (hne : fields ≠ [])
    (hk : (fields.map Prod.fst).Nodup) (hv : ∀ f ∈ fields, f.2.IsPlain) :
    ofText (indented fields) = .ok (.object fields) := by
  obtain ⟨f, rest, rfl⟩ := List.exists_cons_of_ne_nil hne
  have hlines := length_le_intercalate_fieldLine (f :: rest)
  obtain ⟨more, hmore⟩ := Reader.exists_quote f rest
  unfold ofText ofChars
  rw [toList_indented]
  generalize hcs : [',', '\n'].intercalate ((f :: rest).map fieldLine) ++ ['\n', '\x7d'] = cs
    at hmore ⊢
  have hlen : rest.length + 3 ≤ cs.length := by
    rw [← hcs, List.length_append]
    simp only [List.length_cons, List.length_nil] at hlines ⊢
    omega
  have hfuel : rest.length + 2 ≤ 2 * (cs.length + 2) + 1 := by omega
  have hread := Reader.members_fieldLines hv hfuel []
  rw [hcs, List.reverse_nil, List.nil_append, ofMembers_of_nodup hk] at hread
  have hbrace : Reader.skipGap ('\x7b' :: '\n' :: cs) = '\x7b' :: '\n' :: cs := rfl
  rw [hbrace, List.length_cons, List.length_cons, Reader.value_brace hmore, hread]
  rfl

theorem toNat_hexDigit_ge : ∀ n < 16, 32 ≤ (Text.hexDigit n).toNat := by decide

theorem exists_digit_of_mem_hex {width n : Nat} {c : Char} (hc : c ∈ Text.hex width n) :
    ∃ m < 16, c = Text.hexDigit m := by
  induction width generalizing n with
  | zero => simp [Text.hex] at hc
  | succ width ih =>
    rw [Text.hex, List.mem_append, List.mem_singleton] at hc
    rcases hc with hc | rfl
    · exact ih hc
    · exact ⟨n % 16, Nat.mod_lt _ (by decide), rfl⟩

theorem toNat_ge_of_mem_escapeChar {c d : Char} (hd : d ∈ escapeChar c) : 32 ≤ d.toNat := by
  have hescape : ∀ e : Char, 32 ≤ e.toNat → d ∈ ['\\', e] → 32 ≤ d.toNat := by
    intro e he hm
    rcases List.mem_cons.1 hm with rfl | hm
    · decide
    · rw [List.mem_singleton.1 hm]
      exact he
  unfold escapeChar at hd
  split_ifs at hd
  iterate 7 exact hescape _ (by decide) hd
  · rcases List.mem_cons.1 hd with rfl | hd
    · decide
    rcases List.mem_cons.1 hd with rfl | hd
    · decide
    · obtain ⟨m, hm, rfl⟩ := exists_digit_of_mem_hex hd
      exact toNat_hexDigit_ge m hm
  next hlow =>
    rw [List.mem_singleton.1 hd]
    exact Nat.not_lt.1 hlow

theorem toNat_ge_of_mem_stringText {s : String} {d : Char} (hd : d ∈ (stringText s).toList) :
    32 ≤ d.toNat := by
  rw [Reader.toList_stringText, List.mem_cons, List.mem_append, List.mem_flatMap,
    List.mem_singleton] at hd
  rcases hd with rfl | ⟨c, -, hd⟩ | rfl
  · decide
  · exact toNat_ge_of_mem_escapeChar hd
  · decide

theorem IsPlain.toNat_ge_of_mem_compact {v : Json} (hv : v.IsPlain) {d : Char}
    (hd : d ∈ v.compact.toList) : 32 ≤ d.toNat := by
  cases hv with
  | null =>
    have hall : ∀ c ∈ "null".toList, 32 ≤ c.toNat :=
      List.all_iff_forall_prop.1 (by decide)
    exact hall d hd
  | text s => exact toNat_ge_of_mem_stringText hd

theorem toNat_ge_of_mem_fieldLine {f : String × Json} (hf : f.2.IsPlain) {d : Char}
    (hd : d ∈ fieldLine f) : 32 ≤ d.toNat := by
  simp only [fieldLine, List.mem_cons, List.mem_append] at hd
  rcases hd with rfl | rfl | hd | rfl | rfl | hd
  · decide
  · decide
  · exact toNat_ge_of_mem_stringText hd
  · decide
  · decide
  · exact hf.toNat_ge_of_mem_compact hd

theorem mem_intercalate {α : Type} {sep : List α} {parts : List (List α)} {a : α}
    (ha : a ∈ sep.intercalate parts) : a ∈ sep ∨ ∃ part ∈ parts, a ∈ part := by
  induction parts with
  | nil => simp at ha
  | cons p rest ih =>
    cases rest with
    | nil =>
      rw [List.intercalate_singleton] at ha
      exact .inr ⟨p, by simp, ha⟩
    | cons q rest =>
      rw [List.intercalate_cons_cons, List.append_assoc, List.mem_append, List.mem_append] at ha
      rcases ha with ha | ha | ha
      · exact .inr ⟨p, by simp, ha⟩
      · exact .inl ha
      · rcases ih ha with ha | ⟨part, hp, ha⟩
        · exact .inl ha
        · exact .inr ⟨part, List.mem_cons_of_mem _ hp, ha⟩

theorem toNat_ge_of_mem_indented {fields : Fields} (hv : ∀ f ∈ fields, f.2.IsPlain) {d : Char}
    (hd : d ∈ (indented fields).toList) : d = '\n' ∨ 32 ≤ d.toNat := by
  simp only [toList_indented, List.mem_cons, List.mem_append, List.not_mem_nil, or_false] at hd
  rcases hd with rfl | rfl | hd | rfl | rfl
  · exact .inr (by decide)
  · exact .inl rfl
  · rcases mem_intercalate hd with hd | ⟨line, hline, hd⟩
    · simp only [List.mem_cons, List.not_mem_nil, or_false] at hd
      rcases hd with rfl | rfl
      · exact .inr (by decide)
      · exact .inl rfl
    · obtain ⟨f, hf, rfl⟩ := List.mem_map.1 hline
      exact .inr (toNat_ge_of_mem_fieldLine (hv f hf) hd)
  · exact .inl rfl
  · exact .inr (by decide)

end TeamVault.Json
