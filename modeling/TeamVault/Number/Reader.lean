import TeamVault.Number.Binary64
import TeamVault.Json.Reader
import TeamVault.Text.Blank

/-!
Numbers written as texts. Single underscores may stand between digits.
-/
namespace TeamVault.Number

open TeamVault.Json.Reader (isDigit natOfDigits fraction exponent)

def strip (cs : List Char) : List Char := Text.dropEndWhile Text.isSpace (cs.dropWhile Text.isSpace)

def underscoresFit : List Char → Bool
  | [] => true
  | '_' :: '_' :: _ => false
  | '_' :: [] => false
  | _ :: rest => underscoresFit rest

def dropUnderscores? (cs : List Char) : Option (List Char) :=
  if cs.head? ≠ some '_' ∧ underscoresFit cs then some (cs.filter (· != '_')) else none

def splitSign : List Char → Bool × List Char
  | '-' :: rest => (true, rest)
  | '+' :: rest => (false, rest)
  | cs => (false, cs)

def dropZeroPlaces (cs : List Char) : List Char :=
  match cs.dropWhile (· != '.') with
  | '.' :: '0' :: zeros => if zeros.all (· == '0') then cs.takeWhile (· != '.') else cs
  | _ => cs

inductive IntegerText
  | value (n : Int)
  | tooLong
  | unreadable

def readInteger (s : String) : IntegerText :=
  let (negative, cs) := splitSign (strip s.toList)
  match dropUnderscores? (dropZeroPlaces cs) with
  | some (d :: ds) =>
    if (d :: ds).all isDigit then
      if Json.Reader.maxDigits < ((d :: ds).dropWhile (· == '0')).length then .tooLong
      else .value (if negative then -natOfDigits (d :: ds) else natOfDigits (d :: ds))
    else .unreadable
  | _ => .unreadable

def decimal? (negative : Bool) (cs : List Char) : Option Binary64 :=
  let whole := cs.takeWhile isDigit
  let rest := cs.drop whole.length
  let (part, rest) := match rest with
    | '.' :: more => (more.takeWhile isDigit, more.dropWhile isDigit)
    | _ => ([], rest)
  let (exp?, rest) := exponent rest
  if (whole ++ part).isEmpty ∨ ¬ rest.isEmpty then none
  else some (.ofDecimal negative (natOfDigits (whole ++ part)) (exp?.getD 0 - part.length))

def plainNumber? (cs : List Char) : Option Binary64 :=
  let (negative, rest) := splitSign cs
  let name := String.ofList (rest.map Char.toLower)
  if name = "inf" ∨ name = "infinity" then some (.infinite negative)
  else if name = "nan" then some .nan
  else decimal? negative rest

def readNumber? (s : String) : Option Binary64 :=
  (plainNumber? (strip s.toList)).orElse fun _ =>
    if '_' ∈ s.toList then (dropUnderscores? s.toList).bind plainNumber? else none

end TeamVault.Number
