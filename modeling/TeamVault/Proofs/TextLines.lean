import TeamVault.Text.Blank
import TeamVault.Text.Lines
import TeamVault.Text.LowerCase
import Mathlib.Data.List.Basic
import Mathlib.Data.List.TakeWhile

/-!
Lines of a text that grows at its end. What stands before a line feed keeps its lines, whatever
comes after it; the three common line ends may be unified first. Trimming keeps what starts and ends
without a blank. A start in ASCII is in lower case whatever follows, and only a colon becomes a
colon.
-/
namespace TeamVault.Text

/-! ### Single lines -/

theorem splitLinesFrom_cons {c : Char} (hc : c ≠ '\r') (line cs : List Char) :
    splitLinesFrom line (c :: cs) =
      if isLineEnd c then line.reverse :: splitLinesFrom [] cs
      else splitLinesFrom (c :: line) cs := by
  rw [splitLinesFrom]
  exact fun rest hr => absurd hr hc

theorem ne_cr_of_not_isLineEnd {c : Char} (hc : isLineEnd c = false) : c ≠ '\r' := by
  rintro rfl
  exact absurd hc (by decide)

theorem splitLinesFrom_line {word : List Char} (hw : ∀ c ∈ word, isLineEnd c = false)
    (line rest : List Char) : splitLinesFrom line (word ++ '\n' :: rest) =
      (line.reverse ++ word) :: splitLinesFrom [] rest := by
  induction word generalizing line with
  | nil =>
    rw [List.nil_append, splitLinesFrom_cons (by decide), if_pos (by decide), List.append_nil]
  | cons c word ih =>
    have hc := hw c List.mem_cons_self
    rw [List.cons_append, splitLinesFrom_cons (ne_cr_of_not_isLineEnd hc), hc,
      if_neg Bool.false_ne_true, ih fun d hd => hw d (List.mem_cons_of_mem _ hd)]
    simp

theorem not_isLineEnd_of_mem_splitLinesFrom {line cs : List Char}
    (hl : ∀ c ∈ line, isLineEnd c = false) :
    ∀ l ∈ splitLinesFrom line cs, ∀ c ∈ l, isLineEnd c = false := by
  have hrev : ∀ {line : List Char}, (∀ c ∈ line, isLineEnd c = false) →
      ∀ c ∈ line.reverse, isLineEnd c = false := fun h c hc => h c (List.mem_reverse.1 hc)
  fun_induction splitLinesFrom line cs with
  | case1 => simp
  | case2 line =>
    intro l hm
    rw [List.mem_singleton.1 hm]
    exact hrev hl
  | case3 line rest ih =>
    intro l hm
    rcases List.mem_cons.1 hm with rfl | hm
    · exact hrev hl
    · exact ih (by simp) l hm
  | case4 line c rest _ hend ih =>
    intro l hm
    rcases List.mem_cons.1 hm with rfl | hm
    · exact hrev hl
    · exact ih (by simp) l hm
  | case5 line c rest _ hend ih =>
    refine ih fun d hd => ?_
    rcases List.mem_cons.1 hd with rfl | hd
    · simpa using hend
    · exact hl d hd

theorem not_isLineEnd_of_mem_splitLines {s line : String} (hl : line ∈ splitLines s) :
    ∀ c ∈ line.toList, isLineEnd c = false := by
  obtain ⟨cs, hcs, rfl⟩ := List.mem_map.1 hl
  rw [String.toList_ofList]
  exact not_isLineEnd_of_mem_splitLinesFrom (by simp) cs hcs

/-! ### Texts behind each other -/

/-- Between the lines of two texts with a line feed in between there is an empty line where the
first text ends in a line end. -/
theorem exists_gap {cs : List Char} (hcs : '\r' ∉ cs) (line : List Char) :
    ∃ gap, (gap = [] ∨ gap = [[]]) ∧ ∀ rest, splitLinesFrom line (cs ++ '\n' :: rest) =
      splitLinesFrom line cs ++ (gap ++ splitLinesFrom [] rest) := by
  -- the line that is unfinished where the first text ends decides between the two gaps
  induction cs generalizing line with
  | nil =>
    have hfeed : ∀ rest, splitLinesFrom line ('\n' :: rest) =
        line.reverse :: splitLinesFrom [] rest := fun rest => by
      rw [splitLinesFrom_cons (by decide), if_pos (by decide)]
    cases line with
    | nil => exact ⟨[[]], .inr rfl, hfeed⟩
    | cons c line => exact ⟨[], .inl rfl, hfeed⟩
  | cons c cs ih =>
    rw [List.mem_cons, not_or] at hcs
    have hc : c ≠ '\r' := Ne.symm hcs.1
    by_cases hend : isLineEnd c = true
    · obtain ⟨gap, hgap, hrest⟩ := ih hcs.2 []
      refine ⟨gap, hgap, fun rest => ?_⟩
      rw [List.cons_append, splitLinesFrom_cons hc, splitLinesFrom_cons hc, if_pos hend,
        if_pos hend, hrest, List.cons_append]
    · obtain ⟨gap, hgap, hrest⟩ := ih hcs.2 (c :: line)
      refine ⟨gap, hgap, fun rest => ?_⟩
      rw [List.cons_append, splitLinesFrom_cons hc, splitLinesFrom_cons hc, if_neg hend,
        if_neg hend, hrest]

theorem splitLines_append_feed {s : String} (hs : '\r' ∉ s.toList) :
    ∃ gap, (gap = [] ∨ gap = [""]) ∧ ∀ t, splitLines (s ++ "\n" ++ t) =
      splitLines s ++ (gap ++ splitLines t) := by
  obtain ⟨gap, hgap, hrest⟩ := exists_gap hs []
  refine ⟨gap.map String.ofList, ?_, fun t => ?_⟩
  · rcases hgap with rfl | rfl
    · exact .inl rfl
    · exact .inr rfl
  · have hchars : (s ++ "\n" ++ t).toList = s.toList ++ '\n' :: t.toList := by simp
    rw [splitLines, hchars, hrest, List.map_append, List.map_append]
    rfl

theorem splitLinesFrom_unifyBreaksChars (line cs : List Char) :
    splitLinesFrom line (unifyBreaksChars cs) = splitLinesFrom line cs := by
  have hfeed : ∀ line cs, splitLinesFrom line ('\n' :: cs) =
      line.reverse :: splitLinesFrom [] cs := fun line cs => by
    rw [splitLinesFrom_cons (by decide), if_pos (by decide)]
  fun_induction unifyBreaksChars cs generalizing line with
  | case1 => rfl
  | case2 rest ih => rw [hfeed, splitLinesFrom, ih]
  | case3 c rest hpair ih =>
    by_cases hc : c = '\r'
    · subst hc
      have hreturn : splitLinesFrom line ('\r' :: rest) =
          line.reverse :: splitLinesFrom [] rest := by
        rw [splitLinesFrom, if_pos (by decide)]
        exact fun more _ => hpair more rfl
      rw [if_pos rfl, hfeed, hreturn, ih]
    · rw [if_neg hc, splitLinesFrom_cons hc, splitLinesFrom_cons hc, ih, ih]

theorem cr_not_mem_unifyBreaks (s : String) : '\r' ∉ (unifyBreaks s).toList := by
  rw [unifyBreaks, String.toList_ofList]
  exact cr_not_mem_unifyBreaksChars _

theorem splitLines_unifyBreaks (s : String) : splitLines (unifyBreaks s) = splitLines s := by
  rw [splitLines, unifyBreaks, String.toList_ofList, splitLinesFrom_unifyBreaksChars]
  rfl

theorem unifyBreaksChars_append_feed (cs rest : List Char) :
    unifyBreaksChars (cs ++ '\n' :: rest) = unifyBreaksChars cs ++ '\n' :: unifyBreaksChars rest ∨
    ∃ start, unifyBreaksChars cs = start ++ ['\n'] ∧
      unifyBreaksChars (cs ++ '\n' :: rest) = start ++ '\n' :: unifyBreaksChars rest := by
  -- what stands before the place where the texts meet stays in front of both of them
  have hcons : ∀ (c : Char) (a b : List Char), (a = b ++ '\n' :: unifyBreaksChars rest ∨
      ∃ start, b = start ++ ['\n'] ∧ a = start ++ '\n' :: unifyBreaksChars rest) →
      (c :: a = c :: b ++ '\n' :: unifyBreaksChars rest ∨
        ∃ start, c :: b = start ++ ['\n'] ∧ c :: a = start ++ '\n' :: unifyBreaksChars rest) := by
    rintro c a b (rfl | ⟨start, rfl, rfl⟩)
    · exact .inl rfl
    · exact .inr ⟨c :: start, rfl, rfl⟩
  fun_induction unifyBreaksChars cs with
  | case1 =>
    refine .inl ?_
    rw [List.nil_append, unifyBreaksChars, if_neg (by decide), List.nil_append]
    exact fun more hr => absurd hr (by decide)
  | case2 cs ih =>
    rw [List.cons_append, List.cons_append, unifyBreaksChars]
    exact hcons _ _ _ ih
  | case3 c cs hpair ih =>
    by_cases hlast : c = '\r' ∧ cs = []
    · obtain ⟨rfl, rfl⟩ := hlast
      exact .inr ⟨[], rfl, rfl⟩
    · rw [List.cons_append, unifyBreaksChars]
      · exact hcons _ _ _ ih
      · intro more hc he
        cases cs with
        | nil => exact hlast ⟨hc, rfl⟩
        | cons d ds =>
          obtain ⟨rfl, -⟩ := List.cons.inj he
          exact hpair ds hc rfl

theorem splitLines_join (s t : String) : ∃ gap, (gap = [] ∨ gap = [""]) ∧
    splitLines (s ++ "\n" ++ t) = splitLines s ++ (gap ++ splitLines t) := by
  have htext : unifyBreaks (s ++ "\n" ++ t) =
      String.ofList (unifyBreaksChars (s.toList ++ '\n' :: t.toList)) := by
    simp [unifyBreaks]
  have hcr := cr_not_mem_unifyBreaks s
  rw [← splitLines_unifyBreaks (s ++ "\n" ++ t), ← splitLines_unifyBreaks s,
    ← splitLines_unifyBreaks t, htext]
  obtain hall | ⟨start, hstart, hall⟩ := unifyBreaksChars_append_feed s.toList t.toList
  · obtain ⟨gap, hgap, hrest⟩ := splitLines_append_feed hcr
    refine ⟨gap, hgap, ?_⟩
    rw [← hrest, hall]
    simp [unifyBreaks, String.ofList_append, String.append_assoc]
  · have hs : unifyBreaks s = String.ofList start ++ "\n" ++ "" := by
      rw [unifyBreaks, hstart]
      simp [String.ofList_append]
    have hcr : '\r' ∉ (String.ofList start).toList := by
      rw [hs] at hcr
      simp at hcr
      simpa using hcr
    obtain ⟨gap, -, hrest⟩ := splitLines_append_feed hcr
    refine ⟨[], .inl rfl, ?_⟩
    rw [hs, hrest, hall]
    have hjoin : String.ofList (start ++ '\n' :: unifyBreaksChars t.toList) =
        String.ofList start ++ "\n" ++ unifyBreaks t := by
      simp [unifyBreaks, String.ofList_append, String.append_assoc]
    rw [hjoin, hrest]
    simp [splitLines, splitLinesFrom]

/-! ### Trimmed texts -/

theorem not_isLineEnd_of_not_isBlank {c : Char} (hc : isBlank c = false) : isLineEnd c = false := by
  simp only [isBlank, isLineEnd, Bool.or_eq_false_iff, Bool.and_eq_false_iff,
    decide_eq_false_iff_not, beq_eq_false_iff_ne] at hc ⊢
  omega

theorem mem_of_mem_trimChars {cs : List Char} {c : Char} (hc : c ∈ trimChars cs) : c ∈ cs :=
  (List.dropWhile_suffix isBlank).subset ((dropEndWhile_isPrefix isBlank _).subset hc)

theorem trimChars_append {c : Char} {start rest : List Char} (hc : isBlank c = false)
    (hr : rest ≠ []) (ht : trimChars rest = rest) :
    trimChars (c :: start ++ rest) = c :: start ++ rest := by
  obtain ⟨most, d, rfl⟩ := List.eq_nil_or_concat rest |>.resolve_left hr
  rw [List.concat_eq_append] at hr ht ⊢
  have hlast : (trimChars (most ++ [d])).getLast? = some d := by
    rw [ht]
    simp
  have hd := not_isBlank_of_getLast? hlast
  have hstart : dropBlank (c :: start ++ (most ++ [d])) = c :: start ++ (most ++ [d]) := by
    rw [List.cons_append, dropBlank, List.dropWhile_cons_of_neg (by simp [hc])]
  rw [trimChars, hstart, dropEndWhile]
  simp [hd]

theorem trimChars_of_not_isBlank {cs : List Char} (hcs : ∀ c ∈ cs, isBlank c = false) :
    trimChars cs = cs := by
  have hkeep : ∀ {ds : List Char}, (∀ c ∈ ds, isBlank c = false) → ds.dropWhile isBlank = ds := by
    intro ds hds
    refine List.dropWhile_eq_self_iff.2 fun hl => ?_
    rw [hds _ (List.getElem_mem hl)]
    exact Bool.false_ne_true
  rw [trimChars, dropBlank, hkeep hcs, dropEndWhile,
    hkeep fun c hc => hcs c (List.mem_reverse.1 hc), List.reverse_reverse]

theorem trimChars_blank_cons {c : Char} (hc : isBlank c = true) (cs : List Char) :
    trimChars (c :: cs) = trimChars cs := by
  rw [trimChars, dropBlank, List.dropWhile_cons_of_pos hc]
  rfl

theorem trimChars_blanks_append {blanks : List Char} (hb : ∀ c ∈ blanks, isBlank c = true)
    (cs : List Char) : trimChars (blanks ++ cs) = trimChars cs := by
  induction blanks with
  | nil => rfl
  | cons c rest ih =>
    rw [List.cons_append, trimChars_blank_cons (hb c List.mem_cons_self),
      ih fun d hd => hb d (List.mem_cons_of_mem _ hd)]

/-! ### Lower case -/

namespace LowerCase

theorem chars_append_ascii {start : List Char} (hs : ∀ c ∈ start, c.toNat < 0x80)
    (before rest : List Char) : ∃ more, chars before (start ++ rest) =
      start.map Char.toLower ++ more := by
  induction start generalizing before with
  | nil => exact ⟨_, rfl⟩
  | cons c start ih =>
    have hc := hs c List.mem_cons_self
    have hsigma : c ≠ 'Σ' := by
      rintro rfl
      exact absurd hc (by decide)
    obtain ⟨more, hmore⟩ := ih (fun d hd => hs d (List.mem_cons_of_mem _ hd)) (c :: before)
    refine ⟨more, ?_⟩
    rw [List.cons_append, chars, if_neg hsigma, single, if_pos hc, hmore]
    rfl

theorem shifts_above_colon :
    ∀ run ∈ shifts, (':'.toNat : Int) < run.1 + run.2.2.2 := by decide +kernel

theorem eq_of_toLower_eq_colon : ∀ n < 0x80, (Char.ofNat n).toLower = ':' → n = ':'.toNat := by
  decide +kernel

theorem eq_of_ofNat_eq_colon {n : Nat} (hn : Char.ofNat n = ':') : n = ':'.toNat := by
  by_cases hvalid : n.isValidChar
  · rw [Char.ofNat, dif_pos hvalid] at hn
    exact congrArg Char.toNat hn
  · rw [Char.ofNat, dif_neg hvalid] at hn
    exact absurd hn (by decide)

theorem eq_colon_of_mem_single {c : Char} (hc : ':' ∈ single c) : c = ':' := by
  unfold single at hc
  split at hc
  next hascii =>
    have hlower : (Char.ofNat c.toNat).toLower = ':' := by
      rw [Char.ofNat_toNat]
      exact (List.mem_singleton.1 hc).symm
    rw [← Char.ofNat_toNat c, eq_of_toLower_eq_colon _ hascii hlower]
    rfl
  split at hc
  · exact absurd hc (by decide)
  split at hc
  next d hd =>
    unfold offset? at hd
    obtain ⟨run, hrun, rfl⟩ := Option.map_eq_some_iff.1 hd
    have habove := shifts_above_colon run (List.mem_of_find?_eq_some hrun)
    have hfirst : run.1 ≤ c.toNat := by
      have hin := List.find?_some hrun
      simp only [Bool.and_eq_true, decide_eq_true_eq] at hin
      exact hin.1.1
    have hcode := eq_of_ofNat_eq_colon (List.mem_singleton.1 hc).symm
    omega
  next => exact (List.mem_singleton.1 hc).symm

theorem colon_mem_of_mem_chars {before cs : List Char} (hc : ':' ∈ chars before cs) :
    ':' ∈ cs := by
  induction cs generalizing before with
  | nil => exact hc
  | cons c rest ih =>
    rw [chars, List.mem_append] at hc
    refine hc.elim (fun hc => ?_) fun hc => List.mem_cons_of_mem _ (ih hc)
    split at hc
    · split at hc <;> exact absurd hc (by decide)
    · exact eq_colon_of_mem_single hc ▸ List.mem_cons_self

end LowerCase

end TeamVault.Text
