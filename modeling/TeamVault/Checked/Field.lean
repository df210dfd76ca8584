import TeamVault.Checked
import TeamVault.Json.Basic
import TeamVault.Number.Reader
import TeamVault.Time.Reader
import TeamVault.Text.Utf8

/-!
Reading the fields of records from JSON values. Numbers are also read from texts and truth values,
timestamps from numbers, truth values from the usual words.
-/
namespace TeamVault.Checked

open TeamVault (Json)

variable {α : Type}

def text (v : Json) : Checked String :=
  match v.text? with
  | some s => fits s
  | none => reject .notText

def letters (v : Json) : Checked Json.Letters :=
  match v.letters? with
  | some s => fits s
  | none => reject .notText

def bytes : Json → Checked Bytes
  | .text s => fits (Text.Utf8.encode s)
  | _ => reject .notBytes

def object : Json → Checked Json.Fields
  | .object fields => fits fields
  | _ => reject .notObject

def fitsWord (n : Int) : Bool := -(Nat.pow 2 63 : Int) ≤ n && n < (Nat.pow 2 63 : Int)

def integer : Json → Checked Int
  | .int n => fits n
  | .bool b => fits (if b then 1 else 0)
  | .float x => match x with
    | .nan | .infinite _ => reject .integerNotFinite
    | .finite .. => match x.toInt? with
      | some n => if fitsWord n then fits n else reject .integerTooLong
      | none => reject .integerFractional
  | .text s => match Number.readInteger s with
    | .value n => fits n
    | .tooLong => reject .integerTooLong
    | .unreadable => reject .integerUnreadable
  | .halfText _ => reject .integerUnreadable
  | _ => reject .notInteger

def number : Json → Checked Binary64
  | .int n => match Binary64.ofInt n with
    | .infinite _ => reject .notNumber
    | x => fits x
  | .bool b => fits (.ofInt (if b then 1 else 0))
  | .float x => fits x
  | .text s => match Number.readNumber? s with
    | some x => fits x
    | none => reject .numberUnreadable
  | .halfText _ => reject .numberUnreadable
  | _ => reject .notNumber

def falseWords : List String := ["0", "off", "f", "false", "n", "no"]

def trueWords : List String := ["1", "on", "t", "true", "y", "yes"]

def truthOfInt (n : Int) : Checked Bool :=
  if !fitsWord n then reject .notTruth
  else if n = 0 then fits false
  else if n = 1 then fits true
  else reject .truthUnreadable

def truth : Json → Checked Bool
  | .bool b => fits b
  | .int n => truthOfInt n
  | .float x => match x.toInt? with
    | some n => truthOfInt n
    | none => reject .notTruth
  | .text s =>
    let word := s.toLower
    if word ∈ falseWords then fits false
    else if word ∈ trueWords then fits true
    else reject .truthUnreadable
  | .halfText _ => reject .truthUnreadable
  | _ => reject .notTruth

def timestamp (v : Json) : Checked Timestamp :=
  match Timestamp.ofJson? v with
  | some t => fits t
  | none => reject .notTimestamp

def member (ofName? : String → Option α) : Json → Checked α
  | .text s => match ofName? s with
    | some a => fits a
    | none => reject .notMember
  | _ => reject .notMember

def list (check : Json → Checked α) : Json → Checked (List α)
  | .list xs => items check 0 xs
  | _ => reject .notList

def nonempty (check : Json → Checked α) : Json → Checked { xs : List α // xs ≠ [] }
  | .list xs => andThen (items check 0 xs) fun ys =>
      if h : ys = [] then reject .tooShort else fits ⟨ys, h⟩
  | _ => reject .notList

def nullable (check : Json → Checked α) : Json → Checked (Option α)
  | .null => fits none
  | v => map some (check v)

def required (fields : Json.Fields) (key : String) (check : Json → Checked α) : Checked α :=
  under (.key key) (match fields.get? key with
    | some v => check v
    | none => reject .missing)

def withDefault (fields : Json.Fields) (key : String) (default : α) (check : Json → Checked α) :
    Checked α :=
  match fields.get? key with
  | some v => under (.key key) (check v)
  | none => fits default

def nameIn (fields : Json.Fields) (key other : String) : String :=
  if !fields.has key && fields.has other then other else key

end TeamVault.Checked
