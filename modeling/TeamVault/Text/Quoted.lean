import TeamVault.Text.Printable

/-!
Quoted display of a text: single quotes, or double quotes when the text holds a single quote and
no double one; a backslash, the quote in use and every character without a visible form are
written as escapes.
-/
namespace TeamVault.Text

def hexDigit (n : Nat) : Char :=
  if n < 10 then Char.ofNat (48 + n) else Char.ofNat (87 + n)

def hex : Nat → Nat → List Char
  | 0, _ => []
  | width + 1, n => hex width (n / 16) ++ [hexDigit (n % 16)]

namespace Quoted

def quoteFor (cs : List Char) : Char :=
  if '\'' ∈ cs ∧ '"' ∉ cs then '"' else '\''

def escape (quote c : Char) : List Char :=
  if c = quote ∨ c = '\\' then ['\\', c]
  else if c = '\n' then ['\\', 'n']
  else if c = '\r' then ['\\', 'r']
  else if c = '\t' then ['\\', 't']
  else if isPrintable c then [c]
  else if c.toNat < 0x100 then '\\' :: 'x' :: hex 2 c.toNat
  else if c.toNat < 0x10000 then '\\' :: 'u' :: hex 4 c.toNat
  else '\\' :: 'U' :: hex 8 c.toNat

def chars (cs : List Char) : List Char :=
  let quote := quoteFor cs
  quote :: cs.flatMap (escape quote) ++ [quote]

end Quoted

def quoted (s : String) : String := String.ofList (Quoted.chars s.toList)

end TeamVault.Text
