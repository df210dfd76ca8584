import TeamVault.Text.Parts
import TeamVault.Yaml.Moment

/-!
What a plain YAML scalar stands for: null, a truth value, a number, a timestamp, one of the two
special keys, or its own text.
-/
namespace TeamVault.Yaml

inductive Implicit
  | null
  | truth
  | integer
  | float
  | timestamp
  | merge
  | value
  | text
  deriving DecidableEq

namespace Implicit

def isDigit (c : Char) : Bool := '0' ≤ c && c ≤ '9'

def isGrouped (c : Char) : Bool := isDigit c || c == '_'

def isHex (c : Char) : Bool :=
  isDigit c || ('a' ≤ c && c ≤ 'f') || ('A' ≤ c && c ≤ 'F') || c == '_'

def dropSign : List Char → List Char
  | '+' :: rest | '-' :: rest => rest
  | cs => cs

def trueWords : List String := ["yes", "Yes", "YES", "true", "True", "TRUE", "on", "On", "ON"]

def falseWords : List String := ["no", "No", "NO", "false", "False", "FALSE", "off", "Off", "OFF"]

def nullWords : List String := ["", "~", "null", "Null", "NULL"]

def isSixtieth : List Char → Bool
  | [a] => isDigit a
  | [a, b] => '0' ≤ a && a ≤ '5' && isDigit b
  | _ => false

def isInteger (cs : List Char) : Bool :=
  match dropSign cs with
  | ['0'] => true
  | '0' :: 'b' :: rest => !rest.isEmpty && rest.all fun c => c == '0' || c == '1' || c == '_'
  | '0' :: 'x' :: rest => !rest.isEmpty && rest.all isHex
  | '0' :: rest => rest.all fun c => ('0' ≤ c && c ≤ '7') || c == '_'
  | d :: rest => isDigit d && match Text.cut (· == ':') rest with
    | [] => false
    | whole :: parts => whole.all isGrouped && parts.all isSixtieth
  | [] => false

def isExponent : List Char → Bool
  | [] => true
  | e :: sign :: rest =>
    (e == 'e' || e == 'E') && (sign == '+' || sign == '-') && !rest.isEmpty && rest.all isDigit
  | _ => false

def isPointed (cs : List Char) : Bool :=
  match Text.cut (· == '.') cs with
  | [whole, part] => match Text.cut (· == ':') whole with
    | [] => false
    | [w] => w.head?.any isDigit && w.all isGrouped && isExponent (part.dropWhile isGrouped)
    | w :: parts => w.head?.any isDigit && w.all isGrouped && parts.all isSixtieth &&
        part.all isGrouped
  | _ => false

def isFloat (cs : List Char) : Bool :=
  let word := String.ofList cs
  let unsigned := String.ofList (dropSign cs)
  unsigned ∈ [".inf", ".Inf", ".INF"] || word ∈ [".nan", ".NaN", ".NAN"] ||
    (match cs with
      | '.' :: d :: rest => isDigit d && isExponent (rest.dropWhile isGrouped)
      | _ => false) ||
    isPointed (dropSign cs)

def isTimestamp (cs : List Char) : Bool :=
  match Moment.ofChars? cs with
  | some m => m.time.isSome || cs.length == 10
  | none => false

def ofChars (cs : List Char) : Implicit :=
  let word := String.ofList cs
  if word ∈ trueWords ∨ word ∈ falseWords then truth
  else if isFloat cs then float
  else if isInteger cs then integer
  else if word = "<<" then merge
  else if word ∈ nullWords then null
  else if isTimestamp cs then timestamp
  else if word = "=" then value
  else text

end Implicit

end TeamVault.Yaml
