import TeamVault.Text.LowerCase.Table

/-!
Full lower-case mapping. A capital sigma at the end of a word becomes the final form; a dotted
capital I becomes two characters; every other character maps on its own.
-/
namespace TeamVault.Text

namespace LowerCase

def within (ranges : List (Nat × Nat)) (n : Nat) : Bool :=
  ranges.any fun r => r.1 ≤ n && n ≤ r.2

def isCased (c : Char) : Bool := within casedRanges c.toNat

def isIgnorable (c : Char) : Bool := within ignorableRanges c.toNat

def offset? (n : Nat) : Option Int :=
  (shifts.find? fun (first, last, step, _) =>
    first ≤ n && n ≤ last && (n - first) % step == 0).map (·.2.2.2)

def single (c : Char) : List Char :=
  if c.toNat < 0x80 then [c.toLower]
  else if c = 'İ' then ['i', '\u0307']
  else match offset? c.toNat with
    | some d => [Char.ofNat (c.toNat + d).toNat]
    | none => [c]

/-- Going outward from a place in a word, the first character that is not passed over carries
case. -/
def meetsCased (side : List Char) : Bool :=
  match side.dropWhile isIgnorable with
  | c :: _ => isCased c
  | [] => false

def chars (before : List Char) : List Char → List Char
  | [] => []
  | c :: rest =>
    (if c = 'Σ' then [if meetsCased before && !meetsCased rest then 'ς' else 'σ']
      else single c) ++ chars (c :: before) rest

end LowerCase

def lowerCase (s : String) : String := String.ofList (LowerCase.chars [] s.toList)

end TeamVault.Text
