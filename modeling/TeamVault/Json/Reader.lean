import TeamVault.Json.Basic

/-!
Reading JSON text. Only the blank, the tab and the two line breaks separate tokens; control
characters may not stand in strings; the names `NaN`, `Infinity` and `-Infinity` are numbers; an
integer has at most 4300 digits. Lists and objects are followed to any depth: there is no limit to
recursion here, and none in what is proved of texts, replies and files that are read.
-/
namespace TeamVault.Json

inductive Problem
  | malformed
  | tooLong
  deriving DecidableEq

namespace Reader

def isGap (c : Char) : Bool := c = ' ' || c = '\t' || c = '\n' || c = '\r'

def skipGap (cs : List Char) : List Char := cs.dropWhile isGap

def isDigit (c : Char) : Bool := '0' ≤ c && c ≤ '9'

def digitValue (c : Char) : Nat := c.toNat - 48

def natOfDigits (ds : List Char) : Nat := ds.foldl (fun n c => 10 * n + digitValue c) 0

def require {α : Type} : Option α → Except Problem α
  | some a => .ok a
  | none => .error .malformed

def word (w : String) (v : Json) (cs : List Char) : Except Problem (Json × List Char) :=
  if w.toList.isPrefixOf cs then .ok (v, cs.drop w.length) else .error .malformed

def maxDigits : Nat := 4300

def fraction (cs : List Char) : List Char × List Char :=
  match cs with
  | '.' :: rest =>
    let ds := rest.takeWhile isDigit
    if ds.isEmpty then ([], cs) else (ds, rest.drop ds.length)
  | _ => ([], cs)

def exponent (cs : List Char) : Option Int × List Char :=
  match cs with
  | e :: rest =>
    if e = 'e' ∨ e = 'E' then
      let (negative, digits) := match rest with
        | '-' :: more => (true, more)
        | '+' :: more => (false, more)
        | _ => (false, rest)
      let ds := digits.takeWhile isDigit
      if ds.isEmpty then (none, cs)
      else (some (if negative then -natOfDigits ds else natOfDigits ds), digits.drop ds.length)
    else (none, cs)
  | [] => (none, cs)

def number (negative : Bool) (cs : List Char) : Except Problem (Json × List Char) :=
  let whole := cs.takeWhile isDigit
  match whole with
  | [] => .error .malformed
  | d :: more =>
    let whole := if d = '0' then [d] else d :: more
    let rest := cs.drop whole.length
    let (part, rest) := fraction rest
    let (exp?, rest) := exponent rest
    if part.isEmpty && exp?.isNone then
      if maxDigits < whole.length then .error .tooLong
      else
        let n : Int := natOfDigits whole
        .ok (.int (if negative then -n else n), rest)
    else
      .ok (.float (Binary64.ofDecimal negative (natOfDigits (whole ++ part))
        (exp?.getD 0 - part.length)), rest)

def hexValue? (c : Char) : Option Nat :=
  if isDigit c then some (digitValue c)
  else if 'a' ≤ c ∧ c ≤ 'f' then some (c.toNat - 87)
  else if 'A' ≤ c ∧ c ≤ 'F' then some (c.toNat - 55)
  else none

def hex4? : List Char → Option (Nat × List Char)
  | a :: b :: c :: d :: rest => do
    let a ← hexValue? a
    let b ← hexValue? b
    let c ← hexValue? c
    let d ← hexValue? d
    some (((a * 16 + b) * 16 + c) * 16 + d, rest)
  | _ => none

/-- What follows the backslash of a code escape: the halves of a pair make one code point. -/
def codeEscape? (cs : List Char) : Option (Nat × List Char) := do
  let (n, rest) ← hex4? cs
  if 0xD800 ≤ n ∧ n < 0xDC00 then
    match rest with
    | '\\' :: 'u' :: more => match hex4? more with
      | some (low, after) =>
        if 0xDC00 ≤ low ∧ low < 0xE000 then
          some (0x10000 + (n - 0xD800) * 0x400 + (low - 0xDC00), after)
        else some (n, rest)
      | none => some (n, rest)
    | _ => some (n, rest)
  else some (n, rest)

def simpleEscape? (c : Char) : Option Char :=
  match c with
  | '"' | '\\' | '/' => some c
  | 'b' => some '\x08'
  | 'f' => some '\x0c'
  | 'n' => some '\n'
  | 'r' => some '\r'
  | 't' => some '\t'
  | _ => none

def string (fuel : Nat) (seen : List Nat) (cs : List Char) :
    Except Problem (List Nat × List Char) :=
  match fuel, cs with
  | 0, _ | _, [] => .error .malformed
  | fuel + 1, c :: rest =>
    if c = '"' then .ok (seen.reverse, rest)
    else if c = '\\' then match rest with
      | 'u' :: more => do
        let (d, after) ← require (codeEscape? more)
        string fuel (d :: seen) after
      | e :: more => do
        let d ← require (simpleEscape? e)
        string fuel (d.toNat :: seen) more
      | [] => .error .malformed
    else if c.toNat < 0x20 then .error .malformed
    else string fuel (c.toNat :: seen) rest

mutual

def value (fuel : Nat) (cs : List Char) : Except Problem (Json × List Char) :=
  match fuel with
  | 0 => .error .malformed
  | fuel + 1 =>
    match cs with
    | [] => .error .malformed
    | '"' :: rest => do
      let (codes, rest) ← string (rest.length + 1) [] rest
      return (.ofCodes codes, rest)
    | '[' :: rest =>
      match skipGap rest with
      | ']' :: rest => .ok (.list [], rest)
      | rest => items fuel [] rest
    | c :: rest =>
      if c.toNat = 0x7B then
        match skipGap rest with
        | [] => .error .malformed
        | d :: rest' =>
          if d.toNat = 0x7D then .ok (.object [], rest') else members fuel [] (d :: rest')
      else if c = '-' then
        if rest.head? = some 'I' then word "Infinity" (.float (.infinite true)) rest
        else number true rest
      else if isDigit c then number false cs
      else if c = 'n' then word "null" .null cs
      else if c = 't' then word "true" (.bool true) cs
      else if c = 'f' then word "false" (.bool false) cs
      else if c = 'N' then word "NaN" (.float .nan) cs
      else if c = 'I' then word "Infinity" (.float (.infinite false)) cs
      else .error .malformed

def items (fuel : Nat) (seen : List Json) (cs : List Char) : Except Problem (Json × List Char) :=
  match fuel with
  | 0 => .error .malformed
  | fuel + 1 => do
    let (v, rest) ← value fuel cs
    match skipGap rest with
    | ']' :: rest => return (.list (v :: seen).reverse, rest)
    | ',' :: rest => items fuel (v :: seen) (skipGap rest)
    | _ => .error .malformed

def members (fuel : Nat) (seen : Fields) (cs : List Char) : Except Problem (Json × List Char) :=
  match fuel with
  | 0 => .error .malformed
  | fuel + 1 => do
    let (codes, rest) ← match cs with
      | '"' :: rest => string (rest.length + 1) [] rest
      | _ => .error .malformed
    let k := shownText codes
    match skipGap rest with
    | ':' :: rest => do
      let (v, rest) ← value fuel (skipGap rest)
      match skipGap rest with
      | ',' :: rest => members fuel ((k, v) :: seen) (skipGap rest)
      | d :: rest =>
        if d.toNat = 0x7D then return (.object (Fields.ofMembers ((k, v) :: seen).reverse), rest)
        else .error .malformed
      | [] => .error .malformed
    | _ => .error .malformed

end

end Reader

def ofChars (cs : List Char) : Except Problem Json := do
  let (v, rest) ← Reader.value (2 * cs.length + 2) (Reader.skipGap cs)
  if (Reader.skipGap rest).isEmpty then return v else .error .malformed

/-- Reads a text; a byte order mark at its start is refused. -/
def ofText (s : String) : Except Problem Json := ofChars s.toList

def ofText? (s : String) : Option Json := (ofText s).toOption

end TeamVault.Json
