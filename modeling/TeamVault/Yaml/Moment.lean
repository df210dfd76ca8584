import TeamVault.Time.Date
import TeamVault.Json.Reader

/-! Dates and times as YAML writes them. -/
namespace TeamVault.Yaml

structure Moment where
  date : Date
  time : Option (Nat × Nat × Nat)
  offset : Option Nat

namespace Moment

open TeamVault.Json.Reader (isDigit natOfDigits)

def number? (least most : Nat) (cs : List Char) : Option (Nat × List Char) :=
  let ds := (cs.take most).takeWhile isDigit
  if ds.length < least then none else some (natOfDigits ds, cs.drop ds.length)

def mark? (m : Char) : List Char → Option (List Char)
  | c :: rest => if c = m then some rest else none
  | [] => none

def isGap (c : Char) : Bool := c == ' ' || c == '\t'

def date? (cs : List Char) : Option (Date × List Char) := do
  let (year, cs) ← number? 4 4 cs
  let (month, cs) ← number? 1 2 (← mark? '-' cs)
  let (day, cs) ← number? 1 2 (← mark? '-' cs)
  some (⟨year, month, day⟩, cs)

def timeMark? : List Char → Option (List Char)
  | c :: rest =>
    if c = 'T' ∨ c = 't' then some rest
    else if isGap c then some (rest.dropWhile isGap)
    else none
  | [] => none

def zone? (cs : List Char) : Option (Option Nat) :=
  match cs.dropWhile isGap with
  | [] => if cs.isEmpty then some none else none
  | ['Z'] => some none
  | sign :: rest =>
    if sign = '+' ∨ sign = '-' then do
      let (hours, rest) ← number? 1 2 rest
      match rest with
      | [] => some (some (60 * hours))
      | ':' :: rest => do
        let (minutes, rest) ← number? 2 2 rest
        if rest.isEmpty then some (some (60 * hours + minutes)) else none
      | _ => none
    else none

def ofChars? (cs : List Char) : Option Moment := do
  let (date, cs) ← date? cs
  if cs.isEmpty then some ⟨date, none, none⟩
  else
    let (hour, cs) ← number? 1 2 (← timeMark? cs)
    let (minute, cs) ← number? 2 2 (← mark? ':' cs)
    let (second, cs) ← number? 2 2 (← mark? ':' cs)
    let cs := match cs with
      | '.' :: rest => rest.dropWhile isDigit
      | _ => cs
    some ⟨date, some (hour, minute, second), ← zone? cs⟩

def isValid (m : Moment) : Bool :=
  m.date.isValid && m.time.all (fun (h, n, s) => h < 24 && n < 60 && s < 60) &&
    m.offset.all (· < 1440)

end Moment

end TeamVault.Yaml
