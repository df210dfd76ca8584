import TeamVault.Proofs.JsonText
import TeamVault.Yaml.Writer

/-!
What YAML is written in. Whatever texts a mapping holds, its document has only visible ASCII
characters and line feeds, so a reader that takes all line ends for one reads it as it is.
-/
namespace TeamVault.Yaml.Writer

def isInk (c : Char) : Bool := isVisible c || c == '\n'

theorem isInk_of_isVisible {c : Char} (hc : isVisible c = true) : isInk c = true := by
  simp [isInk, hc]

def Pen.InInk (pen : Pen) : Prop := ∀ c ∈ pen.written, isInk c = true

variable {pen : Pen} {cs : List Char}

theorem Pen.InInk.put (hp : pen.InInk) (hcs : ∀ c ∈ cs, isInk c = true) : (pen.put cs).InInk := by
  intro c hc
  simp only [Pen.put, List.mem_append, List.mem_reverse] at hc
  rcases hc with hc | hc
  · exact hcs c hc
  · exact hp c hc

theorem Pen.InInk.newLine (hp : pen.InInk) (empty indent : Nat) :
    (pen.newLine empty indent).InInk := by
  intro c hc
  simp only [Pen.newLine, blanks, List.mem_append] at hc
  rcases hc with (hc | hc) | hc
  · rw [List.eq_of_mem_replicate hc]
    decide
  · rw [List.eq_of_mem_replicate hc]
    decide
  · exact hp c hc

/-! ### Plain and single-quoted texts -/

theorem mem_of_mem_runs {run : List Char} {c : Char} (hr : run ∈ runs cs) (hc : c ∈ run) :
    c ∈ cs := by
  induction cs generalizing run with
  | nil => simp [runs] at hr
  | cons d cs ih =>
    rw [runs, List.foldr_cons, ← runs] at hr
    -- the character starts a run of its own or joins the first run after it
    have hparts : run = [d] ∨ run ∈ runs cs ∨ ∃ part ∈ runs cs, run = d :: part := by
      split at hr
      next e part more heq =>
        rw [heq]
        split at hr
        · rcases List.mem_cons.1 hr with rfl | hr
          · exact .inr (.inr ⟨e :: part, by simp, rfl⟩)
          · exact .inr (.inl (List.mem_cons_of_mem _ hr))
        · rcases List.mem_cons.1 hr with rfl | hr
          · exact .inl rfl
          · exact .inr (.inl hr)
      · rcases List.mem_cons.1 hr with rfl | hr
        · exact .inl rfl
        · exact .inr (.inl hr)
    rcases hparts with rfl | hr | ⟨part, hpart, rfl⟩
    · exact List.mem_cons.2 (.inl (List.mem_singleton.1 hc))
    · exact List.mem_cons_of_mem _ (ih hr hc)
    · rcases List.mem_cons.1 hc with rfl | hc
      · exact List.mem_cons_self
      · exact List.mem_cons_of_mem _ (ih hpart hc)

theorem writePlain_inInk (indent : Nat) (hp : pen.InInk) (hcs : ∀ c ∈ cs, isInk c = true) :
    (writePlain indent pen cs).InInk := by
  have hruns : ∀ run ∈ runs cs, ∀ c ∈ run, isInk c = true :=
    fun run hr c hc => hcs c (mem_of_mem_runs hr hc)
  unfold writePlain
  generalize runs cs = parts at hruns
  induction parts generalizing pen with
  | nil => exact hp
  | cons run more ih =>
    rw [List.foldl_cons]
    refine ih ?_ fun r hr => hruns r (List.mem_cons_of_mem _ hr)
    split
    · exact hp.newLine 0 indent
    · exact hp.put (hruns run List.mem_cons_self)

theorem doubleQuotes_inInk (hcs : ∀ c ∈ cs, isInk c = true) :
    ∀ c ∈ doubleQuotes cs, isInk c = true := by
  intro c hc
  obtain ⟨d, hd, hc⟩ := List.mem_flatMap.1 hc
  by_cases hq : d = '\''
  · rw [if_pos hq] at hc
    have hquotes : ∀ e ∈ ['\'', '\''], isInk e = true := List.all_eq_true.1 rfl
    exact hquotes c hc
  · rw [if_neg hq, List.mem_singleton] at hc
    exact hc ▸ hcs d hd

theorem writeRuns_inInk (indent : Nat) {parts : List (List Char)}
    (hparts : ∀ run ∈ parts, ∀ c ∈ run, isInk c = true) (first : Bool) (hp : pen.InInk) :
    (writeRuns indent first pen parts).InInk := by
  induction parts generalizing pen first with
  | nil => exact hp
  | cons run more ih =>
    rw [writeRuns]
    refine ih (fun r hr => hparts r (List.mem_cons_of_mem _ hr)) false ?_
    split
    · exact hp.newLine 0 indent
    · split
      · exact hp.newLine run.length indent
      · exact hp.put (doubleQuotes_inInk (hparts run List.mem_cons_self))

theorem writeSingle_inInk (indent : Nat) (hp : pen.InInk) (hcs : ∀ c ∈ cs, isInk c = true) :
    (writeSingle indent pen cs).InInk := by
  have hquote : ∀ c ∈ ['\''], isInk c = true := List.all_eq_true.1 rfl
  refine Pen.InInk.put (writeRuns_inInk indent ?_ true (hp.put hquote)) hquote
  exact fun run hr c hc => hcs c (mem_of_mem_runs hr hc)

/-! ### Double-quoted texts -/

theorem isVisible_upperHexDigit : ∀ n < 16, isVisible (Text.hexDigit n).toUpper = true := by decide

theorem upperHex_inInk (width n : Nat) : ∀ c ∈ upperHex width n, isInk c = true := by
  intro c hc
  obtain ⟨d, hd, rfl⟩ := List.mem_map.1 hc
  obtain ⟨m, hm, rfl⟩ := Json.exists_digit_of_mem_hex hd
  exact isInk_of_isVisible (isVisible_upperHexDigit m hm)

theorem codeEscape_inInk {mark : Char} (hm : isVisible mark = true) (width n : Nat) :
    ∀ c ∈ '\\' :: mark :: upperHex width n, isInk c = true := by
  intro c hc
  rcases List.mem_cons.1 hc with rfl | hc
  · decide
  rcases List.mem_cons.1 hc with rfl | hc
  · exact isInk_of_isVisible hm
  · exact upperHex_inInk width n c hc

theorem isInk_of_mem_pair {mark : Char} (hm : isVisible mark = true) :
    ∀ c ∈ ['\\', mark], isInk c = true := codeEscape_inInk hm 0 0

theorem escape?_inInk (c : Char) :
    (∀ e, escape? c = some e → ∀ d ∈ e, isInk d = true) ∧
      (escape? c = none → isVisible c = true) := by
  unfold escape?
  split
  iterate 15
    refine ⟨fun e he => ?_, nofun⟩
    cases he
    exact isInk_of_mem_pair (by decide)
  split_ifs with hv
  · exact ⟨nofun, fun _ => hv⟩
  all_goals
    refine ⟨fun e he => ?_, nofun⟩
    cases he
    exact codeEscape_inInk (by decide) _ _

theorem foldDouble_inInk (indent : Nat) (hp : pen.InInk) (next : Option Char) :
    (foldDouble indent pen next).InInk := by
  have hslash : ∀ c ∈ ['\\'], isInk c = true := List.all_eq_true.1 rfl
  have hline := (hp.put hslash).newLine 0 indent
  unfold foldDouble
  dsimp only
  split
  · exact hline.put hslash
  · exact hline

theorem writeChars_inInk (indent : Nat) (first afterEscape : Bool) (hp : pen.InInk)
    (cs : List Char) : (writeChars indent first afterEscape pen cs).InInk := by
  induction cs generalizing pen first afterEscape with
  | nil => exact hp
  | cons c rest ih =>
    obtain ⟨hescape, hplain⟩ := escape?_inInk c
    rw [writeChars]
    cases he : escape? c with
    | some e =>
      dsimp only
      refine ih false true ?_
      split
      · exact foldDouble_inInk indent (hp.put (hescape e he)) _
      · exact hp.put (hescape e he)
    | none =>
      have hc : ∀ d ∈ [c], isInk d = true := by
        intro d hd
        rw [List.mem_singleton.1 hd]
        exact isInk_of_isVisible (hplain he)
      dsimp only
      refine ih false false ?_
      split
      · exact (foldDouble_inInk indent hp _).put hc
      · exact hp.put hc

/-! ### Documents -/

theorem writeText_inInk (indent : Nat) (hp : pen.InInk) (s : String) :
    (writeText indent pen s).InInk := by
  unfold writeText styleOf
  dsimp only
  by_cases hplain : plainFits s.toList = true
  · rw [if_pos hplain]
    refine writePlain_inInk indent hp fun c hc => isInk_of_isVisible ?_
    simp only [plainFits, Bool.and_eq_true, List.all_eq_true] at hplain
    exact hplain.1.1.1.1 c hc
  rw [if_neg hplain]
  by_cases hsingle : singleFits s.toList = true
  · rw [if_pos hsingle]
    refine writeSingle_inInk indent hp fun c hc => ?_
    simp only [singleFits, Bool.and_eq_true, List.all_eq_true] at hsingle
    exact hsingle.1 c hc
  · rw [if_neg hsingle]
    have hquote : ∀ c ∈ ['"'], isInk c = true := List.all_eq_true.1 rfl
    exact Pen.InInk.put (writeChars_inInk indent true false (hp.put hquote) _) hquote

theorem writeEntries_inInk (indent : Nat) {entries : List (String × String)} (hp : pen.InInk)
    (hkeys : ∀ e ∈ entries, ∀ c ∈ e.1.toList, isInk c = true) :
    (writeEntries indent pen (entries.map fun e => (e.1, .text e.2))).InInk := by
  have hmark : ∀ c ∈ [':'], isInk c = true := List.all_eq_true.1 rfl
  have hblank : ∀ c ∈ [' '], isInk c = true := List.all_eq_true.1 rfl
  have hentry : ∀ {pen : Pen} (k v : String), pen.InInk → (∀ c ∈ k.toList, isInk c = true) →
      (writeValue indent (pen.put (k.toList ++ [':'])) (.text v)).InInk := by
    intro pen k v hp hk
    rw [writeValue]
    refine writeText_inInk _ (Pen.InInk.put (hp.put fun c hc => ?_) hblank) v
    rcases List.mem_append.1 hc with hc | hc
    · exact hk c hc
    · exact hmark c hc
  induction entries generalizing pen with
  | nil => exact hp
  | cons e rest ih =>
    have hfirst := hentry e.1 e.2 hp (hkeys e List.mem_cons_self)
    have hrest := ih (hfirst.newLine 0 indent) fun f hf => hkeys f (List.mem_cons_of_mem _ hf)
    cases rest with
    | nil => exact hfirst
    | cons f rest => exact hrest

end Writer

theorem Block.render_inInk {entries : List (String × String)}
    (hkeys : ∀ e ∈ entries, ∀ c ∈ e.1.toList, Writer.isInk c = true) :
    ∀ c ∈ (Block.render (entries.map fun e => (e.1, .text e.2))).toList,
      Writer.isInk c = true := by
  have hempty : (⟨[], 0⟩ : Writer.Pen).InInk := by
    intro c hc
    cases hc
  have hfeed : ∀ c ∈ ['\n'], Writer.isInk c = true := List.all_eq_true.1 rfl
  intro c hc
  have hwritten := (Writer.writeEntries_inInk 0 hempty hkeys).put hfeed
  refine hwritten c ?_
  simpa [Block.render] using hc

end TeamVault.Yaml
