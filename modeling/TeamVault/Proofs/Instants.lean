import TeamVault.Proofs.Expiry
import Mathlib.Data.List.Lex
import Mathlib.Logic.Function.Iterate

/-!
Expiry as a comparison of instants. An instant counts the days of the calendar one by one, so times
that are written with one offset compare by their fields, the year first, and a time that is
written with another offset keeps its instant. Whether a session is over goes by the two instants
alone.
-/
namespace TeamVault

/-! ### Days -/

namespace Date

variable {d e : Date}

/-- A date of the calendar, of which no year is the last here. -/
structure IsProper (d : Date) : Prop where
  year : 1 ≤ d.year
  month : 1 ≤ d.month ∧ d.month ≤ 12
  day : 1 ≤ d.day ∧ d.day ≤ monthLength d.year d.month

theorem isProper_of_isValid (hd : d.isValid = true) : d.IsProper := by
  simp only [isValid, Bool.and_eq_true, decide_eq_true_eq] at hd
  obtain ⟨⟨⟨⟨⟨hyear, -⟩, hm⟩, hm'⟩, hday⟩, hday'⟩ := hd
  exact ⟨hyear, ⟨hm, hm'⟩, hday, hday'⟩

def next (d : Date) : Date :=
  if d.day < monthLength d.year d.month then { d with day := d.day + 1 }
  else if d.month < 12 then ⟨d.year, d.month + 1, 1⟩
  else ⟨d.year + 1, 1, 1⟩

theorem one_le_monthLength (year month : Nat) : 1 ≤ monthLength year month := by
  unfold monthLength
  split
  · split <;> decide
  all_goals decide

theorem IsProper.next (hd : d.IsProper) : d.next.IsProper := by
  obtain ⟨hyear, ⟨hm, hm'⟩, hday, hday'⟩ := hd
  unfold Date.next
  split
  next hmore => exact ⟨hyear, ⟨hm, hm'⟩, Nat.le_add_left 1 _, hmore⟩
  split
  next hmonth => exact ⟨hyear, ⟨Nat.le_add_left 1 _, hmonth⟩, le_rfl, one_le_monthLength _ _⟩
  · exact ⟨Nat.le_add_left 1 _, ⟨le_rfl, Nat.le_add_left 1 11⟩, le_rfl, one_le_monthLength _ _⟩

theorem ordinal_of_last (hm : 1 ≤ d.month) (hday : d.day = monthLength d.year d.month) :
    d.ordinal = daysBeforeYear d.year + daysBeforeMonth d.year (d.month + 1) := by
  rw [ordinal, hday, daysBeforeMonth_succ d.year hm, Nat.add_assoc]

theorem ordinal_next (hd : d.IsProper) : d.next.ordinal = d.ordinal + 1 := by
  obtain ⟨hyear, ⟨hm, hm'⟩, hday, hday'⟩ := hd
  have hfirst : ∀ year, daysBeforeMonth year 1 = 0 := fun _ => rfl
  unfold next
  split
  · rfl
  next hlast =>
    have ho := ordinal_of_last hm (Nat.le_antisymm hday' (Nat.not_lt.1 hlast))
    split
    · rw [ho]
      rfl
    next hdecember =>
      obtain hm : d.month = 12 := Nat.le_antisymm hm' (Nat.not_lt.1 hdecember)
      rw [hm, daysBeforeMonth_thirteen] at ho
      rw [ho, ordinal]
      dsimp only
      rw [daysBeforeYear_succ hyear, hfirst]

theorem isProper_iterate (hd : d.IsProper) (n : Nat) : (Date.next^[n] d).IsProper := by
  induction n with
  | zero => exact hd
  | succ n ih =>
    rw [Function.iterate_succ_apply']
    exact ih.next

theorem ordinal_iterate (hd : d.IsProper) (n : Nat) :
    (Date.next^[n] d).ordinal = d.ordinal + n := by
  induction n with
  | zero => rfl
  | succ n ih =>
    rw [Function.iterate_succ_apply', ordinal_next (isProper_iterate hd n), ih, Nat.add_assoc]

theorem daysBeforeMonth_mono {year m n : Nat} (hm : 1 ≤ m) (h : m ≤ n) :
    daysBeforeMonth year m ≤ daysBeforeMonth year n := by
  induction n, h using Nat.le_induction with
  | base => exact le_rfl
  | succ n hn ih =>
    rw [daysBeforeMonth_succ year (hm.trans hn)]
    omega

def Before (d e : Date) : Prop :=
  d.year < e.year ∨ d.year = e.year ∧ (d.month < e.month ∨ d.month = e.month ∧ d.day < e.day)

theorem before_cases (d e : Date) : d.Before e ∨ d = e ∨ e.Before d := by
  obtain ⟨y, m, n⟩ := d
  obtain ⟨y', m', n'⟩ := e
  simp only [Before, mk.injEq]
  omega

theorem ordinal_lt_of_before (hd : d.IsProper) (he : e.IsProper) (h : d.Before e) :
    d.ordinal < e.ordinal := by
  have hmonth : d.ordinal ≤ daysBeforeYear d.year + daysBeforeMonth d.year (d.month + 1) := by
    have hm := daysBeforeMonth_succ d.year hd.month.1
    have hday := hd.day.2
    rw [ordinal]
    omega
  have hone := he.day.1
  obtain hyear | ⟨hyear, hrest⟩ := h
  · have hall : daysBeforeMonth d.year (d.month + 1) ≤ daysBeforeMonth d.year 13 :=
      daysBeforeMonth_mono (Nat.le_add_left 1 _) (Nat.succ_le_succ hd.month.2)
    have hsucc := daysBeforeYear_succ hd.year
    have hmono : daysBeforeYear (d.year + 1) ≤ daysBeforeYear e.year :=
      daysBeforeYear_mono (Nat.le_add_left 1 _) hyear
    rw [daysBeforeMonth_thirteen] at hall
    rw [ordinal.eq_def e]
    omega
  obtain hm | ⟨hm, hday⟩ := hrest
  · have hmono : daysBeforeMonth d.year (d.month + 1) ≤ daysBeforeMonth d.year e.month :=
      daysBeforeMonth_mono (Nat.le_add_left 1 _) hm
    rw [ordinal.eq_def e, ← hyear]
    omega
  · rw [ordinal, ordinal, hyear, hm]
    omega

theorem ordinal_lt_iff (hd : d.IsProper) (he : e.IsProper) :
    d.ordinal < e.ordinal ↔ d.Before e := by
  refine ⟨fun hlt => ?_, ordinal_lt_of_before hd he⟩
  obtain h | rfl | h := before_cases d e
  · exact h
  · exact absurd hlt (Nat.lt_irrefl _)
  · exact absurd hlt (Nat.lt_asymm (ordinal_lt_of_before he hd h))

theorem eq_of_ordinal (hd : d.IsProper) (he : e.IsProper) (h : d.ordinal = e.ordinal) : d = e := by
  obtain hlt | heq | hlt := before_cases d e
  · exact absurd h (Nat.ne_of_lt (ordinal_lt_of_before hd he hlt))
  · exact heq
  · exact absurd h (Nat.ne_of_gt (ordinal_lt_of_before he hd hlt))

end Date

/-! ### Times -/

namespace Timestamp

variable {t u v : Timestamp}

structure IsProper (t : Timestamp) : Prop where
  date : t.date.isValid = true
  hour : t.hour < 24
  minute : t.minute < 60
  second : t.second < 60
  microsecond : t.microsecond < 1000000

def fields (t : Timestamp) : List Nat :=
  [t.date.year, t.date.month, t.date.day, t.hour, t.minute, t.second, t.microsecond]

def ahead (t : Timestamp) : Int := t.offset.getD 0

theorem timeOfDay_lt (ht : t.IsProper) : (t.timeOfDay : Int) < microsPerDay := by
  obtain ⟨-, hhour, hminute, hsecond, hmicro⟩ := ht
  unfold timeOfDay microsPerDay
  omega

theorem fields_lt_iff (ht : t.IsProper) (hu : u.IsProper) :
    t.fields < u.fields ↔ t.date.Before u.date ∨ t.date = u.date ∧ t.timeOfDay < u.timeOfDay := by
  obtain ⟨-, hhour, hminute, hsecond, hmicro⟩ := ht
  obtain ⟨-, hhour', hminute', hsecond', hmicro'⟩ := hu
  have hdate : t.date = u.date ↔
      t.date.year = u.date.year ∧ t.date.month = u.date.month ∧ t.date.day = u.date.day :=
    iff_of_eq (Date.mk.injEq ..)
  have htime : [t.hour, t.minute, t.second, t.microsecond] <
      [u.hour, u.minute, u.second, u.microsecond] ↔ t.timeOfDay < u.timeOfDay := by
    simp only [List.cons_lt_cons_iff, List.not_lt_nil, timeOfDay]
    constructor
    · rintro (h | ⟨h, h' | ⟨h', h'' | ⟨h'', h''' | ⟨-, ⟨⟩⟩⟩⟩⟩) <;> omega
    · intro h
      omega
  rw [hdate, fields, fields, List.cons_lt_cons_iff, List.cons_lt_cons_iff, List.cons_lt_cons_iff,
    htime, Date.Before]
  omega

theorem instant_lt_iff (ht : t.IsProper) (hu : u.IsProper) (ho : t.ahead = u.ahead) :
    t.instant < u.instant ↔ t.fields < u.fields := by
  have hday := Date.ordinal_lt_iff (Date.isProper_of_isValid ht.date)
    (Date.isProper_of_isValid hu.date)
  have hsame : t.date.ordinal = u.date.ordinal ↔ t.date = u.date :=
    ⟨Date.eq_of_ordinal (Date.isProper_of_isValid ht.date) (Date.isProper_of_isValid hu.date),
      congrArg Date.ordinal⟩
  rw [fields_lt_iff ht hu, ← hday, ← hsame]
  have htime := timeOfDay_lt ht
  have htime' := timeOfDay_lt hu
  unfold ahead at ho
  unfold instant
  rw [ho]
  unfold microsPerDay at *
  omega

theorem instant_le_iff (ht : t.IsProper) (hu : u.IsProper) (ho : t.ahead = u.ahead) :
    t.instant ≤ u.instant ↔ t.fields ≤ u.fields := by
  rw [← not_lt, ← not_lt, instant_lt_iff hu ht ho.symm]

/-- A time written again with another offset: the clock is moved by the difference of the offsets,
over as many midnights as this takes. -/
structure Rewrites (t u : Timestamp) : Prop where
  old : t.IsProper
  new : u.IsProper
  clock : ∃ days : Int,
    Date.next^[days.toNat] t.date = Date.next^[(-days).toNat] u.date ∧
      days * microsPerDay + u.timeOfDay = t.timeOfDay + (u.ahead - t.ahead) * 1000000

/-- To write a time again is to keep its instant. -/
theorem rewrites_iff (ht : t.IsProper) (hu : u.IsProper) :
    t.Rewrites u ↔ t.instant = u.instant := by
  have hdate := Date.isProper_of_isValid ht.date
  have hdate' := Date.isProper_of_isValid hu.date
  unfold instant
  change _ ↔ _ - t.ahead * 1000000 = _ - u.ahead * 1000000
  constructor
  · rintro ⟨-, -, days, hdays, hclock⟩
    have ho := congrArg Date.ordinal hdays
    rw [Date.ordinal_iterate hdate, Date.ordinal_iterate hdate'] at ho
    unfold microsPerDay at *
    omega
  · intro hi
    refine ⟨ht, hu, (u.date.ordinal : Int) - t.date.ordinal, ?_, ?_⟩
    · refine Date.eq_of_ordinal (Date.isProper_iterate hdate _) (Date.isProper_iterate hdate' _) ?_
      rw [Date.ordinal_iterate hdate, Date.ordinal_iterate hdate']
      omega
    · unfold microsPerDay at *
      omega

theorem Rewrites.instant_eq (hr : t.Rewrites u) : t.instant = u.instant :=
  (rewrites_iff hr.old hr.new).1 hr

end Timestamp

/-! ### Sessions -/

namespace Session

variable {s : Session} {expiry now : Timestamp}

theorem isExpired_of_expiry (hs : s.expiresAt = some expiry) (hnow : now.offset ≠ none) :
    s.isExpired now = .ok (decide (expiry.instant ≤ now.instant)) := by
  rw [isExpired_of_known hnow, isOver, hs]
  rfl

theorem isExpired_iff (hs : s.expiresAt = some expiry) (hnow : now.offset ≠ none) :
    s.isExpired now = .ok true ↔ expiry.instant ≤ now.instant := by
  simp [isExpired_of_expiry hs hnow]

/-- A session is over from the instant of its expiry on, a time without an offset being read as
universal time. This is so however the two times are written, and where they are written with one
offset their fields tell it, the year first. A session that is over stays so, and it is not
loaded. -/
theorem expiry_compares_instants (hs : s.expiresAt = some expiry) (hnow : now.offset ≠ none) :
    s.isExpired now = .ok (decide (expiry.instant ≤ now.instant)) ∧
    (expiry.offset = none →
      { s with expiresAt := some { expiry with offset := some 0 } }.isExpired now =
        s.isExpired now) ∧
    (∀ e n, expiry.Rewrites e → now.Rewrites n → n.offset ≠ none →
      { s with expiresAt := some e }.isExpired n = s.isExpired now ∧
      (e.ahead = n.ahead → (s.isExpired now = .ok true ↔ e.fields ≤ n.fields))) ∧
    (∀ later, later.offset ≠ none → now.instant ≤ later.instant →
      s.isExpired now = .ok true → s.isExpired later = .ok true) ∧
    (s.isExpired now = .ok true → ∀ home h w w', h.now = now →
      Credentials.load home h w ≠ (.ok s, w')) := by
  refine ⟨isExpired_of_expiry hs hnow, ?_, ?_, ?_, ?_⟩
  · intro hnaive
    have hsame : { expiry with offset := some 0 }.instant = expiry.instant := by
      simp only [Timestamp.instant, Timestamp.timeOfDay, hnaive, Option.getD_some, Option.getD_none]
    rw [isExpired_of_expiry rfl hnow, isExpired_of_expiry hs hnow, hsame]
  · intro e n he hn hoffset
    have hnew : { s with expiresAt := some e }.isExpired n = s.isExpired now := by
      rw [isExpired_of_expiry rfl hoffset, isExpired_of_expiry hs hnow, he.instant_eq,
        hn.instant_eq]
    refine ⟨hnew, fun ho => ?_⟩
    rw [← hnew, isExpired_iff rfl hoffset]
    exact Timestamp.instant_le_iff he.new hn.new ho
  · intro later hlater hle hover
    rw [isExpired_iff hs hnow] at hover
    exact (isExpired_iff hs hlater).2 (hover.trans hle)
  · rintro hover home h w w' rfl hl
    have hload : Credentials.load (some (home.getD Local.usualHome)) h w = (.ok s, w') := hl
    obtain ⟨d, -, hholds⟩ := (Credentials.load_finds _).value h w s w' hload
    have hlater := hholds.unexpired expiry hs
    have hended := (isExpired_iff hs hnow).1 hover
    omega

/-! A session that ends late on New Year's Eve, by a clock five hours behind universal time. -/

def eve : Timestamp := ⟨⟨2024, 12, 31⟩, 23, 30, 0, 0, some (-18000)⟩

def newYear : Timestamp := ⟨⟨2025, 1, 1⟩, 4, 30, 0, 0, some 0⟩

def yearly : Session := ⟨.whole "t", .whole "u", none, some eve⟩

theorem eve_rewrites_newYear : eve.Rewrites newYear :=
  (Timestamp.rewrites_iff ⟨by decide, by decide, by decide, by decide, by decide⟩
    ⟨by decide, by decide, by decide, by decide, by decide⟩).2 (by decide +kernel)

theorem newYear_rewrites_eve : newYear.Rewrites eve :=
  (Timestamp.rewrites_iff eve_rewrites_newYear.new eve_rewrites_newYear.old).2
    eve_rewrites_newYear.instant_eq.symm

/-- The session is over on either clock, though the years differ. -/
theorem over_on_either_clock : yearly.isExpired newYear = .ok true ∧
    { yearly with expiresAt := some newYear }.isExpired eve = .ok true := by
  obtain ⟨-, -, hwritten, -, -⟩ :=
    @expiry_compares_instants yearly eve newYear rfl (by decide)
  have hnow : yearly.isExpired newYear = .ok true :=
    (isExpired_iff rfl (by decide)).2 (by decide +kernel)
  exact ⟨hnow, (hwritten _ _ eve_rewrites_newYear newYear_rewrites_eve (by decide)).1.trans hnow⟩

end Session

end TeamVault
