import TeamVault.Json.Reader
import TeamVault.Text.Utf8

/-!
JSON text as bytes. The encoding shows in a byte order mark, or in where the zero bytes stand
among the first four.
-/
namespace TeamVault.Json

inductive Encoding
  | utf8
  | utf16 (bigEndian : Bool)
  | utf32 (bigEndian : Bool)
  deriving DecidableEq

namespace Encoding

def detect (bs : Bytes) : Encoding × Nat :=
  match bs with
  | 0x00 :: 0x00 :: 0xFE :: 0xFF :: _ => (utf32 true, 4)
  | 0xFF :: 0xFE :: 0x00 :: 0x00 :: _ => (utf32 false, 4)
  | 0xFE :: 0xFF :: _ => (utf16 true, 2)
  | 0xFF :: 0xFE :: _ => (utf16 false, 2)
  | 0xEF :: 0xBB :: 0xBF :: _ => (utf8, 3)
  | a :: b :: c :: d :: _ =>
    if a = 0 then (if b = 0 then utf32 true else utf16 true, 0)
    else if b = 0 then (if c = 0 ∧ d = 0 then utf32 false else utf16 false, 0)
    else (utf8, 0)
  | [a, b] => (if a = 0 then utf16 true else if b = 0 then utf16 false else utf8, 0)
  | _ => (utf8, 0)

def words16? (bigEndian : Bool) : Bytes → Option (List Nat)
  | [] => some []
  | a :: b :: rest =>
    let n := if bigEndian then a.toNat * 256 + b.toNat else b.toNat * 256 + a.toNat
    (words16? bigEndian rest).map (n :: ·)
  | _ => none

def words32? (bigEndian : Bool) : Bytes → Option (List Nat)
  | [] => some []
  | a :: b :: c :: d :: rest =>
    let bytes := if bigEndian then [a, b, c, d] else [d, c, b, a]
    (words32? bigEndian rest).map (bytes.foldl (fun n b => n * 256 + b.toNat) 0 :: ·)
  | _ => none

def isHighHalf (n : Nat) : Bool := 0xD800 ≤ n && n < 0xDC00

def isLowHalf (n : Nat) : Bool := 0xDC00 ≤ n && n < 0xE000

/-- Joins the halves of pairs; a half alone stands as the replacement character. -/
def charsOfUnits : List Nat → List Char
  | [] => []
  | [n] => [if isHighHalf n || isLowHalf n then '\uFFFD' else Char.ofNat n]
  | n :: m :: rest =>
    if isHighHalf n && isLowHalf m then
      Char.ofNat (0x10000 + (n - 0xD800) * 0x400 + (m - 0xDC00)) :: charsOfUnits rest
    else
      (if isHighHalf n || isLowHalf n then '\uFFFD' else Char.ofNat n) :: charsOfUnits (m :: rest)

def charOfCode? (n : Nat) : Option Char :=
  if 0x110000 ≤ n then none
  else some (if isHighHalf n || isLowHalf n then '\uFFFD' else Char.ofNat n)

def decode? : Encoding → Bytes → Option (List Char)
  | utf8, bs => Text.Utf8.decodeAfter Text.Utf8.surrogatesPass [] 0 bs
  | utf16 bigEndian, bs => (words16? bigEndian bs).map charsOfUnits
  | utf32 bigEndian, bs => (words32? bigEndian bs).bind (·.mapM charOfCode?)

end Encoding

def ofBytes? (bs : Bytes) : Option Json := do
  let (encoding, mark) := Encoding.detect bs
  let cs ← encoding.decode? (bs.drop mark)
  (ofChars cs).toOption

end TeamVault.Json
