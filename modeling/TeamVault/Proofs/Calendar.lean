import TeamVault.Time.Reader
import Mathlib.Algebra.Order.Group.Nat

/-!
The calendar counts every day once: the date of an ordinal, counted off by whole years and months,
is a date of the calendar.
-/
namespace TeamVault.Date

theorem div_succ (k c : Nat) :
    (k + 1) / c = k / c + if (k + 1) % c = 0 then 1 else 0 := by
  rw [Nat.succ_div]
  simp only [Nat.dvd_iff_mod_eq_zero]

theorem daysBeforeYear_succ {year : Nat} (hy : 1 ≤ year) :
    daysBeforeYear (year + 1) = daysBeforeYear year + yearLength year := by
  obtain ⟨k, rfl⟩ := Nat.exists_eq_add_of_le' hy
  have h4 := div_succ k 4
  have h100 := div_succ k 100
  have h400 := div_succ k 400
  have hpast : k / 100 ≤ k / 4 := by omega
  have hcentury : (k + 1) % 100 = 0 → (k + 1) % 4 = 0 := by omega
  have hera : (k + 1) % 400 = 0 → (k + 1) % 100 = 0 := by omega
  simp only [daysBeforeYear, yearLength, isLeap, Nat.add_sub_cancel, h4, h100, h400,
    Bool.and_eq_true, Bool.or_eq_true, decide_eq_true_eq]
  clear h4 h100 h400
  generalize k / 4 = a, k / 100 = b, k / 400 = c at *
  by_cases h1 : (k + 1) % 4 = 0 <;> by_cases h2 : (k + 1) % 100 = 0 <;>
    by_cases h3 : (k + 1) % 400 = 0 <;> simp_all <;> omega

theorem daysBeforeYear_mono {y z : Nat} (hy : 1 ≤ y) (h : y ≤ z) :
    daysBeforeYear y ≤ daysBeforeYear z := by
  induction z, h using Nat.le_induction with
  | base => exact le_rfl
  | succ z hz ih =>
    rw [daysBeforeYear_succ (hy.trans hz)]
    omega

theorem monthLength_le (year month : Nat) : monthLength year month ≤ 31 := by
  unfold monthLength
  split
  · split <;> decide
  all_goals decide

theorem daysBeforeMonth_succ (year : Nat) {month : Nat} (hm : 1 ≤ month) :
    daysBeforeMonth year (month + 1) = daysBeforeMonth year month + monthLength year month := by
  obtain ⟨k, rfl⟩ := Nat.exists_eq_add_of_le' hm
  simp only [daysBeforeMonth, Nat.add_sub_cancel]
  rw [List.range'_1_concat, List.foldl_append, Nat.add_comm 1 k]
  rfl

theorem daysBeforeMonth_thirteen (year : Nat) : daysBeforeMonth year 13 = yearLength year := by
  unfold daysBeforeMonth yearLength
  simp only [List.range', List.foldl, monthLength]
  split <;> rfl

theorem splitYears_spec {fuel year days y d : Nat} (hy : 1 ≤ year)
    (hs : splitYears fuel year days = (y, d)) :
    year ≤ y ∧ y ≤ year + fuel ∧ daysBeforeYear y + d = daysBeforeYear year + days ∧
      (d < yearLength y ∨ y = year + fuel) := by
  induction fuel generalizing year days with
  | zero =>
    cases hs
    simp
  | succ fuel ih =>
    rw [splitYears] at hs
    split at hs
    next h =>
      cases hs
      exact ⟨le_rfl, by omega, rfl, .inl h⟩
    next h =>
      obtain ⟨h1, h2, h3, h4⟩ := ih (by omega) hs
      rw [daysBeforeYear_succ hy] at h3
      exact ⟨by omega, by omega, by omega, by omega⟩

theorem splitMonths_spec {year fuel month days m d : Nat} (hm : 1 ≤ month)
    (hs : splitMonths year fuel month days = (m, d)) :
    month ≤ m ∧ m ≤ month + fuel ∧
      daysBeforeMonth year m + d = daysBeforeMonth year month + days ∧
      (d < monthLength year m ∨ m = month + fuel) := by
  induction fuel generalizing month days with
  | zero =>
    cases hs
    simp
  | succ fuel ih =>
    rw [splitMonths] at hs
    split at hs
    next h =>
      cases hs
      exact ⟨le_rfl, by omega, rfl, .inl h⟩
    next h =>
      obtain ⟨h1, h2, h3, h4⟩ := ih (by omega) hs
      rw [daysBeforeMonth_succ year hm] at h3
      exact ⟨by omega, by omega, by omega, by omega⟩

def lastOrdinal : Nat := 3652059

theorem ofOrdinal_isValid {n : Nat} (h1 : 1 ≤ n) (hn : n ≤ lastOrdinal) :
    (ofOrdinal n).isValid = true := by
  rcases hy : splitYears 400 (1 + 400 * ((n - 1) / 146097)) ((n - 1) % 146097) with ⟨y, d⟩
  rcases hm : splitMonths y 11 1 d with ⟨m, e⟩
  obtain ⟨hy1, hy2, hy3, hy4⟩ := splitYears_spec (by omega) hy
  obtain ⟨hm1, hm2, hm3, hm4⟩ := splitMonths_spec le_rfl hm
  have hstart : daysBeforeYear (1 + 400 * ((n - 1) / 146097)) = 146097 * ((n - 1) / 146097) := by
    simp only [daysBeforeYear]
    omega
  have hall : daysBeforeYear y + d = n - 1 := by omega
  have hday : d < yearLength y := by
    rcases hy4 with hlt | hend
    · exact hlt
    · exfalso
      have hnext : daysBeforeYear y = 146097 * ((n - 1) / 146097 + 1) := by
        rw [hend]
        simp only [daysBeforeYear]
        omega
      omega
  have hyear : y ≤ 9999 := by
    by_contra hlt
    have h1 : daysBeforeYear 10000 = lastOrdinal := rfl
    have h2 := daysBeforeYear_mono (by decide) (show 10000 ≤ y by omega)
    omega
  have hmonth : e < monthLength y m := by
    rcases hm4 with hlt | hend
    · exact hlt
    · subst hend
      have h12 := daysBeforeMonth_succ y (show 1 ≤ 1 + 11 by decide)
      have h13 := daysBeforeMonth_thirteen y
      have h0 : daysBeforeMonth y 1 = 0 := rfl
      rw [h13] at h12
      omega
  have hdate : ofOrdinal n = ⟨y, m, e + 1⟩ := by simp only [ofOrdinal, hy, hm]
  simp only [hdate, isValid, Bool.and_eq_true, decide_eq_true_eq]
  omega

end TeamVault.Date
