import TeamVault.Time.Date

/-!
Points in time as they are written down: a date, a time of day and, where one is known, the offset
from universal time. The instant that a timestamp denotes is a number of microseconds.
-/
namespace TeamVault

/-- The offset is in seconds, positive to the east. -/
structure Timestamp where
  date : Date
  hour : Nat
  minute : Nat
  second : Nat
  microsecond : Nat
  offset : Option Int
  deriving DecidableEq

namespace Timestamp

def microsPerDay : Int := 86400000000

def timeOfDay (t : Timestamp) : Nat :=
  ((t.hour * 60 + t.minute) * 60 + t.second) * 1000000 + t.microsecond

/-- Microseconds since the start of 1970 in universal time; a timestamp without an offset is read
as universal time. -/
def instant (t : Timestamp) : Int :=
  ((t.date.ordinal : Int) - Date.epoch) * microsPerDay + t.timeOfDay -
    t.offset.getD 0 * 1000000

def ofInstant (micros : Int) : Timestamp :=
  let days := micros / microsPerDay
  let rest := (micros % microsPerDay).toNat
  { date := Date.ofOrdinal (days + Date.epoch).toNat
    hour := rest / 3600000000
    minute := rest / 60000000 % 60
    second := rest / 1000000 % 60
    microsecond := rest % 1000000
    offset := some 0 }

def padded (width n : Nat) : String :=
  let ds := toString n
  String.ofList (List.replicate (width - ds.length) '0') ++ ds

def offsetText (offset : Int) : String :=
  let n := offset.natAbs
  (if offset < 0 then "-" else "+") ++ padded 2 (n / 3600) ++ ":" ++ padded 2 (n / 60 % 60) ++
    (if n % 60 = 0 then "" else ":" ++ padded 2 (n % 60))

def plainText (t : Timestamp) : String :=
  padded 4 t.date.year ++ "-" ++ padded 2 t.date.month ++ "-" ++ padded 2 t.date.day ++ "T" ++
    padded 2 t.hour ++ ":" ++ padded 2 t.minute ++ ":" ++ padded 2 t.second ++
    (if t.microsecond = 0 then "" else "." ++ padded 6 t.microsecond)

def toText (t : Timestamp) : String :=
  t.plainText ++ (t.offset.map offsetText).getD ""

/-- The form that is kept in files: universal time is marked by `Z`. -/
def storedText (t : Timestamp) : String :=
  t.plainText ++ match t.offset with
    | none => ""
    | some o => if o = 0 then "Z" else offsetText o

end Timestamp

end TeamVault
