/-!
Dates of the Gregorian calendar and the count of days from the first of January of year one, which
is day 1.
-/
namespace TeamVault

structure Date where
  year : Nat
  month : Nat
  day : Nat
  deriving DecidableEq

namespace Date

def isLeap (year : Nat) : Bool := year % 4 = 0 && (year % 100 ≠ 0 || year % 400 = 0)

def yearLength (year : Nat) : Nat := if isLeap year then 366 else 365

def monthLength (year : Nat) : Nat → Nat
  | 2 => if isLeap year then 29 else 28
  | 4 | 6 | 9 | 11 => 30
  | _ => 31

def isValid (d : Date) : Bool :=
  1 ≤ d.year && d.year ≤ 9999 && 1 ≤ d.month && d.month ≤ 12 && 1 ≤ d.day &&
    d.day ≤ monthLength d.year d.month

def daysBeforeYear (year : Nat) : Nat :=
  365 * (year - 1) + (year - 1) / 4 - (year - 1) / 100 + (year - 1) / 400

def daysBeforeMonth (year month : Nat) : Nat :=
  (List.range' 1 (month - 1)).foldl (fun days m => days + monthLength year m) 0

def ordinal (d : Date) : Nat := daysBeforeYear d.year + daysBeforeMonth d.year d.month + d.day

def splitYears : Nat → Nat → Nat → Nat × Nat
  | 0, year, days => (year, days)
  | fuel + 1, year, days =>
    if days < yearLength year then (year, days)
    else splitYears fuel (year + 1) (days - yearLength year)

def splitMonths (year : Nat) : Nat → Nat → Nat → Nat × Nat
  | 0, month, days => (month, days)
  | fuel + 1, month, days =>
    if days < monthLength year month then (month, days)
    else splitMonths year fuel (month + 1) (days - monthLength year month)

def ofOrdinal (n : Nat) : Date :=
  let days := n - 1
  let (year, days) := splitYears 400 (1 + 400 * (days / 146097)) (days % 146097)
  let (month, days) := splitMonths year 11 1 days
  ⟨year, month, days + 1⟩

def epoch : Nat := 719163

example : ordinal ⟨1970, 1, 1⟩ = epoch ∧ ofOrdinal epoch = ⟨1970, 1, 1⟩ := by decide +kernel

example : ofOrdinal (ordinal ⟨2024, 2, 29⟩) = ⟨2024, 2, 29⟩ := by decide +kernel

end Date

end TeamVault
