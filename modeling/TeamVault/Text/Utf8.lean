/-!
Bytes and text. A strict reader takes only what encoding writes. A lenient one reads a character
at a time and puts U+FFFD in the place of the longest part of a character that is not one.
-/
namespace TeamVault

abbrev Bytes := List UInt8

namespace Text.Utf8

def encode (s : String) : Bytes := s.toUTF8.data.toList

inductive Step
  | char (c : Char)
  | surrogate
  | bad

def tail (b : UInt8) : Bool := 0x80 ≤ b && b ≤ 0xBF

def bits (b : UInt8) : Nat := b.toNat % 0x40

def step (b : UInt8) (rest : Bytes) : Step × Nat :=
  if b < 0x80 then (.char (Char.ofNat b.toNat), 0)
  else if b < 0xC2 || 0xF4 < b then (.bad, 0)
  else match rest with
    | [] => (.bad, 0)
    | c :: rest =>
      if b < 0xE0 then
        if tail c then (.char (Char.ofNat ((b.toNat - 0xC0) * 0x40 + bits c)), 1) else (.bad, 0)
      else if b < 0xF0 then
        if !tail c || (b == 0xE0 && c < 0xA0) then (.bad, 0)
        else match rest with
          | d :: _ =>
            if tail d then
              if b == 0xED && 0xA0 ≤ c then (.surrogate, 2)
              else (.char (Char.ofNat (((b.toNat - 0xE0) * 0x40 + bits c) * 0x40 + bits d)), 2)
            else if b == 0xED && 0xA0 ≤ c then (.bad, 0) else (.bad, 1)
          | [] => if b == 0xED && 0xA0 ≤ c then (.bad, 0) else (.bad, 1)
      else if !tail c || (b == 0xF0 && c < 0x90) || (b == 0xF4 && 0x90 ≤ c) then (.bad, 0)
      else match rest with
        | d :: e :: _ =>
          if !tail d then (.bad, 1)
          else if !tail e then (.bad, 2)
          else (.char (Char.ofNat
            ((((b.toNat - 0xF0) * 0x40 + bits c) * 0x40 + bits d) * 0x40 + bits e)), 3)
        | [d] => if tail d then (.bad, 2) else (.bad, 1)
        | [] => (.bad, 1)

structure Policy where
  surrogate : Option (List Char)
  bad : Option (List Char)

/-- Half a surrogate pair passes for the replacement character, all else must be characters. -/
def surrogatesPass : Policy := ⟨some ['\uFFFD'], none⟩

/-- Each bad part becomes one replacement character; half a surrogate pair is three bad parts. -/
def lenient : Policy := ⟨some ['\uFFFD', '\uFFFD', '\uFFFD'], some ['\uFFFD']⟩

/-- Reads on after the characters `seen`, the last first, of which the last one takes `more` of the
bytes that follow. -/
def decodeAfter (policy : Policy) (seen : List Char) (more : Nat) : Bytes → Option (List Char)
  | [] => some seen.reverse
  | b :: rest =>
    match more with
    | more + 1 => decodeAfter policy seen more rest
    | 0 =>
      match step b rest with
      | (.char c, n) => decodeAfter policy (c :: seen) n rest
      | (.surrogate, n) => match policy.surrogate with
        | some cs => decodeAfter policy (cs ++ seen) n rest
        | none => none
      | (.bad, n) => match policy.bad with
        | some cs => decodeAfter policy (cs ++ seen) n rest
        | none => none

def decode? (bs : Bytes) : Option String := String.fromUTF8? ⟨⟨bs⟩⟩

def decodeLenient (bs : Bytes) : String :=
  String.ofList ((decodeAfter lenient [] 0 bs).getD [])

end Text.Utf8

end TeamVault
