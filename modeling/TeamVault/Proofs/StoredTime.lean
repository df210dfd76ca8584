import TeamVault.Proofs.Calendar
import Mathlib.Data.List.Induction
import Mathlib.Data.List.TakeWhile

/-!
Every time that is read from JSON is written so that reading the text gives that time again: its
date, its time of day to the microsecond and its offset, or that it has none.
-/
namespace TeamVault.Timestamp

open TeamVault.Json.Reader (isDigit digitValue natOfDigits)

theorem isDigit_of_mem_toDigits {n : Nat} {c : Char} (hc : c ∈ Nat.toDigits 10 n) :
    isDigit c = true := by
  have h := Nat.isDigit_of_mem_toDigits (by decide) (by decide) hc
  simpa [isDigit, Char.isDigit, Char.le_def, UInt32.le_iff_toNat_le] using h

theorem toNat_of_isDigit {c : Char} (hc : isDigit c = true) : 48 ≤ c.toNat ∧ c.toNat ≤ 57 := by
  simp only [isDigit, Bool.and_eq_true, decide_eq_true_eq, Char.le_def,
    UInt32.le_iff_toNat_le] at hc
  exact hc

theorem natOfDigits_eq (ds : List Char) : natOfDigits ds = Nat.ofDigitChars 10 ds 0 := rfl

theorem toList_padded (width n : Nat) : (padded width n).toList =
    List.replicate (width - (Nat.toDigits 10 n).length) '0' ++ Nat.toDigits 10 n := by
  have h : toString n = String.ofList (Nat.toDigits 10 n) := rfl
  simp [padded, h]

theorem natOfDigits_zeros (k : Nat) (ds : List Char) :
    natOfDigits (List.replicate k '0' ++ ds) = natOfDigits ds := by
  induction k with
  | zero => rfl
  | succ k ih => exact ih

theorem natOfDigits_padded (width n : Nat) : natOfDigits (padded width n).toList = n := by
  rw [toList_padded, natOfDigits_zeros, natOfDigits_eq,
    Nat.ofDigitChars_toDigits (by decide) (by decide)]

theorem isDigit_of_mem_padded {width n : Nat} {c : Char} (hc : c ∈ (padded width n).toList) :
    isDigit c = true := by
  rw [toList_padded, List.mem_append] at hc
  rcases hc with hc | hc
  · rw [List.eq_of_mem_replicate hc]
    rfl
  · exact isDigit_of_mem_toDigits hc

theorem length_padded {width n : Nat} (hw : 0 < width) (hn : n < 10 ^ width) :
    (padded width n).toList.length = width := by
  have hl := (Nat.length_toDigits_le_iff (b := 10) (by decide) hw).2 hn
  rw [toList_padded, List.length_append, List.length_replicate]
  omega

theorem digits?_padded {width n : Nat} (hw : 0 < width) (hn : n < 10 ^ width) (rest : List Char) :
    digits? width ((padded width n).toList ++ rest) = some (n, rest) := by
  have hl := length_padded hw hn
  have htake : ((padded width n).toList ++ rest).take width = (padded width n).toList :=
    List.take_left' hl
  have hdrop : ((padded width n).toList ++ rest).drop width = rest := List.drop_left' hl
  have hall : (padded width n).toList.all isDigit = true := by
    rw [List.all_eq_true]
    exact fun c => isDigit_of_mem_padded
  unfold digits?
  simp only [htake, hdrop, hl, hall, natOfDigits_padded, and_self, if_true]

theorem natOfDigits_lt {ds : List Char} (hd : ∀ c ∈ ds, isDigit c = true) :
    natOfDigits ds < 10 ^ ds.length := by
  induction ds using List.reverseRecOn with
  | nil => simp [natOfDigits]
  | append_singleton ds c ih =>
    have hc : digitValue c < 10 := by
      have hlast := (toNat_of_isDigit (hd c (by simp))).2
      unfold digitValue
      omega
    have hr := ih fun d hm => hd d (by simp [hm])
    have hs : natOfDigits (ds ++ [c]) = 10 * natOfDigits ds + digitValue c := by
      simp [natOfDigits]
    rw [hs, List.length_append, List.length_singleton, Nat.pow_succ]
    omega

structure IsWritable (t : Timestamp) : Prop where
  date : t.date.isValid = true
  hour : t.hour < 24
  minute : t.minute < 60
  second : t.second < 60
  microsecond : t.microsecond < 1000000
  offset : ∀ o, t.offset = some o → o % 60 = 0 ∧ o.natAbs < 86400

variable {t : Timestamp}

theorem date?_written (ht : t.IsWritable) (rest : List Char) :
    date? ((padded 4 t.date.year).toList ++ '-' :: ((padded 2 t.date.month).toList ++
      '-' :: ((padded 2 t.date.day).toList ++ rest))) = some (t.date, rest) := by
  have hb := ht.date
  simp only [Date.isValid, Bool.and_eq_true, decide_eq_true_eq] at hb
  have hday := Date.monthLength_le t.date.year t.date.month
  unfold date?
  rw [digits?_padded (by decide) (by omega)]
  simp only [bind, Option.bind, mark?, decide_true, if_true]
  rw [digits?_padded (by decide) (by omega)]
  simp only [decide_true, if_true]
  rw [digits?_padded (by decide) (by omega)]
  exact if_pos ht.date

def zoneText (offset : Option Int) : List Char :=
  match offset with
  | none => []
  | some o => if o = 0 then ['Z'] else (offsetText o).toList

def fractionText (micros : Nat) : List Char :=
  if micros = 0 then [] else '.' :: (padded 6 micros).toList

theorem toList_storedText (t : Timestamp) : t.storedText.toList =
    (padded 4 t.date.year).toList ++ '-' :: ((padded 2 t.date.month).toList ++
      '-' :: ((padded 2 t.date.day).toList ++ 'T' :: ((padded 2 t.hour).toList ++
      ':' :: ((padded 2 t.minute).toList ++ ':' :: ((padded 2 t.second).toList ++
      (fractionText t.microsecond ++ zoneText t.offset)))))) := by
  have hf : (if t.microsecond = 0 then "" else "." ++ padded 6 t.microsecond).toList =
      fractionText t.microsecond := by
    unfold fractionText
    split <;> simp
  have hz : t.storedText.toList = t.plainText.toList ++ zoneText t.offset := by
    unfold storedText zoneText
    cases t.offset with
    | none => simp
    | some o => by_cases ho : o = 0 <;> simp [ho]
  rw [hz]
  simp only [plainText, String.toList_append, hf]
  simp

theorem toList_offsetText {o : Int} (hm : o % 60 = 0) : (offsetText o).toList =
    (if o < 0 then '-' else '+') ::
      ((padded 2 (o.natAbs / 3600)).toList ++ ':' :: (padded 2 (o.natAbs / 60 % 60)).toList) := by
  have hs : o.natAbs % 60 = 0 := by omega
  simp only [offsetText, hs, if_true]
  split <;> simp

theorem zone?_offsetText {o : Int} (hm : o % 60 = 0) (hd : o.natAbs < 86400) :
    zone? (offsetText o).toList = some (some o) := by
  have hminus : ∀ cs, zone? ('-' :: cs) = (offset? ('-' :: cs)).map some := fun _ => rfl
  have hplus : ∀ cs, zone? ('+' :: cs) = (offset? ('+' :: cs)).map some := fun _ => rfl
  have hhours := digits?_padded (show 0 < 2 by decide) (show o.natAbs / 3600 < 10 ^ 2 by omega)
    (':' :: (padded 2 (o.natAbs / 60 % 60)).toList)
  have hminutes := digits?_padded (show 0 < 2 by decide)
    (show o.natAbs / 60 % 60 < 10 ^ 2 by omega) []
  rw [List.append_nil] at hminutes
  rw [toList_offsetText hm]
  by_cases hneg : o < 0
  · rw [if_pos hneg, hminus]
    simp only [offset?, hhours, hminutes, bind, Option.bind, List.isEmpty_nil, true_and]
    rw [if_pos (by omega)]
    simp only [Option.map_some, Option.some.injEq]
    omega
  · rw [if_neg hneg, hplus]
    simp only [offset?, hhours, hminutes, bind, Option.bind, List.isEmpty_nil, true_and]
    rw [if_pos (by omega)]
    simp only [Option.map_some, Option.some.injEq]
    omega

theorem zone?_zoneText (ht : t.IsWritable) : zone? (zoneText t.offset) = some t.offset := by
  unfold zoneText
  cases ho : t.offset with
  | none => rfl
  | some o =>
    obtain ⟨hm, hd⟩ := ht.offset o ho
    by_cases h0 : o = 0
    · subst h0
      rfl
    · simp only [h0, if_false]
      exact zone?_offsetText hm hd

theorem head?_zoneText (ht : t.IsWritable) {c : Char} {cs : List Char}
    (hc : zoneText t.offset = c :: cs) : c ≠ '.' ∧ c ≠ ',' ∧ isDigit c = false := by
  unfold zoneText at hc
  cases ho : t.offset with
  | none =>
    rw [ho] at hc
    cases hc
  | some o =>
    rw [ho] at hc
    dsimp only at hc
    by_cases h0 : o = 0
    · rw [if_pos h0] at hc
      cases hc
      decide
    · rw [if_neg h0, toList_offsetText (ht.offset o ho).1] at hc
      rw [← (List.cons.inj hc).1]
      by_cases hneg : o < 0
      · rw [if_pos hneg]
        decide
      · rw [if_neg hneg]
        decide

theorem takeWhile_fraction (ht : t.IsWritable) (width n : Nat) :
    ((padded width n).toList ++ zoneText t.offset).takeWhile isDigit = (padded width n).toList := by
  rw [List.takeWhile_append_of_pos fun c => isDigit_of_mem_padded]
  cases hz : zoneText t.offset with
  | nil => simp
  | cons c rest =>
    rw [List.takeWhile_cons, (head?_zoneText ht hz).2.2]
    simp

theorem microseconds_padded {n : Nat} (hn : n < 1000000) :
    microseconds (padded 6 n).toList = n := by
  have hlen := length_padded (show 0 < 6 by decide) (show n < 10 ^ 6 from hn)
  unfold microseconds
  rw [List.take_of_length_le hlen.le, natOfDigits_padded, hlen]
  simp

theorem time?_written (ht : t.IsWritable) : time? ((padded 2 t.hour).toList ++
      ':' :: ((padded 2 t.minute).toList ++ ':' :: ((padded 2 t.second).toList ++
      (fractionText t.microsecond ++ zoneText t.offset)))) =
    some ((t.hour, t.minute, t.second, t.microsecond), zoneText t.offset) := by
  have h1 := ht.hour
  have h2 := ht.minute
  have h3 := ht.second
  have h4 := ht.microsecond
  unfold time?
  rw [digits?_padded (by decide) (by omega)]
  simp only [bind, Option.bind, mark?, decide_true, if_true]
  rw [digits?_padded (by decide) (by omega)]
  dsimp only
  rw [if_neg (by omega)]
  simp only [digits?_padded (show 0 < 2 by decide) (show t.second < 10 ^ 2 by omega)]
  rw [if_neg (by omega)]
  unfold fractionText
  by_cases hm : t.microsecond = 0
  · simp only [hm, if_true, List.nil_append]
    cases hz : zoneText t.offset with
    | nil => rfl
    | cons c rest =>
      obtain ⟨hpoint, hcomma, -⟩ := head?_zoneText ht hz
      simp only [hpoint, hcomma, or_self, if_false]
  · simp only [hm, if_false, List.cons_append]
    have hlen := length_padded (show 0 < 6 by decide) (show t.microsecond < 10 ^ 6 by omega)
    have hne : (padded 6 t.microsecond).toList.isEmpty = false := by
      rw [List.isEmpty_eq_false_iff]
      intro h0
      rw [h0] at hlen
      cases hlen
    simp only [takeWhile_fraction ht, hne, microseconds_padded h4, true_or, if_true,
      Bool.false_eq_true, if_false]
    rw [List.drop_left]

theorem ofText?_storedText (ht : t.IsWritable) : ofText? t.storedText = some t := by
  have hw : written? t.storedText.toList = some t := by
    unfold written?
    rw [toList_storedText, date?_written ht]
    simp only [bind, Option.bind, true_or, if_true, time?_written ht, zone?_zoneText ht]
  rw [ofText?, hw]
  rfl

theorem isValid_of_date? {cs rest : List Char} {d : Date} (h : date? cs = some (d, rest)) :
    d.isValid = true := by
  unfold date? at h
  simp only [bind, Option.bind_eq_some_iff] at h
  obtain ⟨⟨year, cs⟩, -, cs, -, ⟨month, cs⟩, -, cs, -, ⟨day, cs⟩, -, h⟩ := h
  dsimp only at h
  split at h
  next hd =>
    cases h
    exact hd
  · cases h

theorem microseconds_lt {ds : List Char} (hd : ∀ c ∈ ds, isDigit c = true) :
    microseconds ds < 1000000 := by
  have hlt := natOfDigits_lt fun c hc => hd c (List.mem_of_mem_take (i := 6) hc)
  rw [List.length_take] at hlt
  have hpow : 10 ^ min 6 ds.length * 10 ^ (6 - ds.length) = 1000000 := by
    rw [← Nat.pow_add, show min 6 ds.length + (6 - ds.length) = 6 by omega]
  have hpos : 0 < 10 ^ (6 - ds.length) := Nat.pow_pos (by decide)
  calc microseconds ds = natOfDigits (ds.take 6) * 10 ^ (6 - ds.length) := rfl
    _ < 10 ^ min 6 ds.length * 10 ^ (6 - ds.length) := Nat.mul_lt_mul_of_pos_right hlt hpos
    _ = 1000000 := hpow

theorem time?_bounds {cs rest : List Char} {hour minute second micros : Nat}
    (h : time? cs = some ((hour, minute, second, micros), rest)) :
    hour < 24 ∧ minute < 60 ∧ second < 60 ∧ micros < 1000000 := by
  unfold time? at h
  simp only [bind, Option.bind_eq_some_iff] at h
  obtain ⟨⟨hour, cs⟩, -, cs, -, ⟨minute, cs⟩, -, h⟩ := h
  dsimp only at h
  split at h
  · cases h
  next hbound =>
    split at h
    · rw [Option.bind_eq_some_iff] at h
      obtain ⟨⟨second, cs⟩, -, h⟩ := h
      dsimp only at h
      split at h
      · cases h
      next hsecond =>
        split at h
        next rest =>
          split at h
          · split at h
            · cases h
            · cases h
              have hmicros : microseconds (rest.takeWhile isDigit) < 1000000 :=
                microseconds_lt fun c hc => List.mem_takeWhile_imp hc
              omega
          · cases h
            omega
        · cases h
          omega
    · cases h
      omega

theorem offset?_bounds {cs : List Char} {o : Int} (h : offset? cs = some o) :
    o % 60 = 0 ∧ o.natAbs < 86400 := by
  unfold offset? at h
  simp only [bind] at h
  split at h
  case h_4 => cases h
  -- a plus and the two minus signs differ in the sign of the offset only
  all_goals
    simp only [Option.bind_some, Option.bind_eq_some_iff] at h
    obtain ⟨⟨hours, more⟩, -, ⟨minutes, rest⟩, -, h⟩ := h
    dsimp only at h
    split at h
    next hb =>
      cases h
      obtain ⟨-, hm, hh⟩ := hb
      omega
    · cases h

theorem zone?_bounds {cs : List Char} {offset : Option Int} (h : zone? cs = some offset) :
    ∀ o, offset = some o → o % 60 = 0 ∧ o.natAbs < 86400 := by
  intro o ho
  subst ho
  unfold zone? at h
  split at h
  · cases h
  · cases h
    decide
  · cases h
    decide
  · obtain ⟨p, hp, hpo⟩ := Option.map_eq_some_iff.1 h
    cases hpo
    exact offset?_bounds hp

theorem isWritable_of_written? {cs : List Char} (h : written? cs = some t) : t.IsWritable := by
  unfold written? at h
  simp only [bind, Option.bind_eq_some_iff] at h
  obtain ⟨⟨date, cs⟩, hdate, h⟩ := h
  have hd := isValid_of_date? hdate
  dsimp only at h
  split at h
  · cases h
    exact ⟨hd, Nat.zero_lt_succ _, Nat.zero_lt_succ _, Nat.zero_lt_succ _, Nat.zero_lt_succ _,
      fun o ho => by cases ho⟩
  · split at h
    · simp only [Option.bind_eq_some_iff] at h
      obtain ⟨⟨⟨hour, minute, second, micros⟩, cs⟩, htime, offset, hzone, h⟩ := h
      cases h
      obtain ⟨h1, h2, h3, h4⟩ := time?_bounds htime
      exact ⟨hd, h1, h2, h3, h4, zone?_bounds hzone⟩
    · cases h

theorem isWritable_ofUnixSeconds? {seconds : Int} {micros : Nat}
    (h : ofUnixSeconds? seconds micros = some t) : t.IsWritable := by
  unfold ofUnixSeconds? at h
  dsimp only at h
  split at h
  next hb =>
    cases h
    generalize seconds + (micros / 1000000 : Nat) = s at hb
    have hm : micros % 1000000 < 1000000 := Nat.mod_lt _ (by decide)
    generalize micros % 1000000 = m at hm
    have hpos : 0 ≤ (s * 1000000 + m) % microsPerDay := Int.emod_nonneg _ (by decide)
    have hlt : (s * 1000000 + m) % microsPerDay < microsPerDay := Int.emod_lt_of_pos _ (by decide)
    -- only instants of the years 1600 to 9999 are read, so the day is one of the calendar
    refine ⟨Date.ofOrdinal_isValid ?_ ?_, ?_, ?_, ?_, ?_, ?_⟩
    · simp only [microsPerDay, Date.epoch]
      omega
    · simp only [microsPerDay, Date.epoch, Date.lastOrdinal]
      omega
    · simp only [ofInstant]
      simp only [microsPerDay] at *
      omega
    · simp only [ofInstant]
      omega
    · simp only [ofInstant]
      omega
    · simp only [ofInstant]
      omega
    · rintro o ⟨⟩
      decide
  · cases h

theorem isWritable_ofUnix? {n : Int} {micros : Nat} (h : ofUnix? n micros = some t) :
    t.IsWritable := by
  unfold ofUnix? at h
  split at h
  · cases h
  · split at h
    · exact isWritable_ofUnixSeconds? h
    · exact isWritable_ofUnixSeconds? h

theorem isWritable_ofNumber? {cs : List Char} (h : ofNumber? cs = some t) : t.IsWritable := by
  unfold ofNumber? at h
  dsimp only at h
  split at h
  -- the sign makes no difference to what is read after it
  all_goals
    split at h
    · cases h
    split at h
    · cases h
    split at h
    · exact isWritable_ofUnix? h
    · split at h
      · simp only [bind, Option.bind_eq_some_iff] at h
        obtain ⟨n, -, h⟩ := h
        exact isWritable_ofUnix? h
      · cases h
    · cases h

theorem isWritable_of_ofText? {s : String} (h : ofText? s = some t) : t.IsWritable := by
  unfold ofText? at h
  cases hw : written? s.toList with
  | some u =>
    rw [hw] at h
    cases h
    exact isWritable_of_written? hw
  | none =>
    rw [hw] at h
    exact isWritable_ofNumber? h

theorem isWritable_of_ofJson? {v : Json} (h : ofJson? v = some t) : t.IsWritable := by
  cases v with
  | text s => exact isWritable_of_ofText? h
  | int n => exact isWritable_ofUnix? h
  | float x =>
    simp only [ofJson?, ofFloat?, bind, Option.bind_eq_some_iff] at h
    obtain ⟨n, -, h⟩ := h
    exact isWritable_ofUnix? h
  | _ => cases h

end TeamVault.Timestamp
