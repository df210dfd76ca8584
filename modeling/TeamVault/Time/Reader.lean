import TeamVault.Time.Timestamp
import TeamVault.Json.Reader

/-!
Reading timestamps. A text is a date, a date with a time of day and perhaps an offset, or a unix
time; a number is a unix time. Unix times of more than twenty milliards count milliseconds, the
others seconds.
-/
namespace TeamVault.Timestamp

open TeamVault.Json.Reader (isDigit digitValue natOfDigits)

def digits? (n : Nat) (cs : List Char) : Option (Nat × List Char) :=
  let ds := cs.take n
  if ds.length = n ∧ ds.all isDigit then some (natOfDigits ds, cs.drop n) else none

def mark? (ok : Char → Bool) : List Char → Option (List Char)
  | c :: rest => if ok c then some rest else none
  | [] => none

def date? (cs : List Char) : Option (Date × List Char) := do
  let (year, cs) ← digits? 4 cs
  let cs ← mark? (· = '-') cs
  let (month, cs) ← digits? 2 cs
  let cs ← mark? (· = '-') cs
  let (day, cs) ← digits? 2 cs
  let d : Date := ⟨year, month, day⟩
  if d.isValid then some (d, cs) else none

def microseconds (ds : List Char) : Nat :=
  natOfDigits (ds.take 6) * Nat.pow 10 (6 - ds.length)

def time? (cs : List Char) : Option ((Nat × Nat × Nat × Nat) × List Char) := do
  let (hour, cs) ← digits? 2 cs
  let cs ← mark? (· = ':') cs
  let (minute, cs) ← digits? 2 cs
  if 23 < hour ∨ 59 < minute then none
  else match cs with
    | ':' :: cs => do
      let (second, cs) ← digits? 2 cs
      if 59 < second then none
      else match cs with
        | c :: rest =>
          if c = '.' ∨ c = ',' then
            let ds := rest.takeWhile isDigit
            if ds.isEmpty then none
            else some ((hour, minute, second, microseconds ds), rest.drop ds.length)
          else some ((hour, minute, second, 0), cs)
        | [] => some ((hour, minute, second, 0), [])
    | _ => some ((hour, minute, 0, 0), cs)

def offset? (cs : List Char) : Option Int := do
  let (sign, cs) ← match cs with
    | '+' :: cs => some (1, cs)
    | '-' :: cs | '−' :: cs => some (-1, cs)
    | _ => none
  let (hours, cs) ← digits? 2 cs
  let (minutes, cs) ← digits? 2 (match cs with
    | ':' :: rest => rest
    | _ => cs)
  if cs.isEmpty ∧ minutes < 60 ∧ hours < 24 then
    some (sign * ((hours * 3600 + minutes * 60 : Nat) : Int))
  else none

def zone? : List Char → Option (Option Int)
  | [] => some none
  | ['Z'] | ['z'] => some (some 0)
  | cs => (offset? cs).map some

def written? (cs : List Char) : Option Timestamp := do
  let (date, cs) ← date? cs
  match cs with
  | [] => some ⟨date, 0, 0, 0, 0, none⟩
  | c :: rest =>
    if c = 'T' ∨ c = 't' ∨ c = ' ' ∨ c = '_' then do
      let ((hour, minute, second, microsecond), cs) ← time? rest
      let offset ← zone? cs
      some ⟨date, hour, minute, second, microsecond, offset⟩
    else none

def watershed : Int := 20000000000

/-- Unix times are known from the year 1600 to the end of the year 9999. -/
def ofUnixSeconds? (seconds : Int) (micros : Nat) : Option Timestamp :=
  let seconds := seconds + (micros / 1000000 : Nat)
  if -11676096000 ≤ seconds ∧ seconds ≤ 253402300799 then
    some (ofInstant (seconds * 1000000 + (micros % 1000000 : Nat)))
  else none

def ofUnix? (n : Int) (micros : Nat) : Option Timestamp :=
  if n < -(Nat.pow 2 63 : Int) ∨ (Nat.pow 2 63 : Int) ≤ n then none
  else if n.natAbs ≤ watershed.toNat then ofUnixSeconds? n micros
  else ofUnixSeconds? (n / 1000) ((n % 1000).toNat * 1000 + micros)

def microsOf (x : Binary64) : Nat := ((x.mul (.ofInt 1000000)).roundUp?.getD 0).toNat

/-- A unix time with a fraction; a fraction counts forward from the second before. -/
def ofFloat? (x : Binary64) : Option Timestamp := do
  let n ← x.floor?
  ofUnix? n (microsOf x.fractionPart)

def addDigits (x : Binary64) (place : Nat) : List Char → Binary64
  | [] => x
  | c :: rest =>
    addDigits (x.add (.ofFraction (digitValue c) (Nat.pow 10 place))) (place + 1) rest

def ofNumber? (cs : List Char) : Option Timestamp := do
  let (negative, cs) := match cs with
    | '-' :: rest => (true, rest)
    | '+' :: rest => (false, rest)
    | _ => (false, cs)
  let whole := cs.takeWhile isDigit
  if whole.isEmpty then none
  else
    let n : Int := natOfDigits whole
    if (Nat.pow 2 63 : Int) ≤ n then none
    else match cs.drop whole.length with
      | [] => ofUnix? (if negative then -n else n) 0
      | '.' :: rest =>
        if rest.all isDigit then do
          let size := addDigits (.ofInt n) 1 rest
          let size := if (Binary64.ofInt watershed).lt size then size.divNat 1000 else size
          let x := if negative then size.neg else size
          let n ← x.floor?
          ofUnix? n (microsOf (x.add (.ofInt (-n))))
        else none
      | _ => none

def ofText? (s : String) : Option Timestamp :=
  (written? s.toList).orElse fun _ => ofNumber? s.toList

def ofJson? : Json → Option Timestamp
  | .text s => ofText? s
  | .int n => ofUnix? n 0
  | .float x => ofFloat? x
  | _ => none

end TeamVault.Timestamp
