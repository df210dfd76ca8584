import TeamVault.Json.Basic
import TeamVault.Number.Shortest
import TeamVault.Text.Quoted

/-!
Written forms of JSON values: compact JSON text, text indented by two blanks for objects that are
kept in files, and the display form that messages use.
-/
namespace TeamVault.Json

def escapeChar (c : Char) : List Char :=
  if c = '"' then ['\\', '"']
  else if c = '\\' then ['\\', '\\']
  else if c = '\n' then ['\\', 'n']
  else if c = '\r' then ['\\', 'r']
  else if c = '\t' then ['\\', 't']
  else if c.toNat = 8 then ['\\', 'b']
  else if c.toNat = 12 then ['\\', 'f']
  else if c.toNat < 0x20 then '\\' :: 'u' :: Text.hex 4 c.toNat
  else [c]

def escapeCode (n : Nat) : List Char :=
  if isHalf n then '\\' :: 'u' :: Text.hex 4 n else escapeChar (Char.ofNat n)

def halfStringText (codes : List Nat) : String :=
  String.ofList ('"' :: codes.flatMap escapeCode ++ ['"'])

def stringText (s : String) : String :=
  String.ofList ('"' :: s.toList.flatMap escapeChar ++ ['"'])

def floatText : Binary64 → String
  | .nan => "NaN"
  | .infinite negative => if negative then "-Infinity" else "Infinity"
  | x => x.toText

mutual

def compact : Json → String
  | null => "null"
  | bool b => if b then "true" else "false"
  | int n => toString n
  | float x => floatText x
  | text s => stringText s
  | halfText codes => halfStringText codes
  | list xs => "[" ++ ",".intercalate (compactItems xs) ++ "]"
  | object fields => "\x7b" ++ ",".intercalate (compactFields fields) ++ "\x7d"

def compactItems : List Json → List String
  | [] => []
  | x :: xs => compact x :: compactItems xs

def compactFields : List (String × Json) → List String
  | [] => []
  | (k, v) :: rest => (stringText k ++ ":" ++ compact v) :: compactFields rest

end

def indented (fields : Fields) : String :=
  "\x7b\n" ++ ",\n".intercalate (fields.map fun (k, v) =>
    "  " ++ stringText k ++ ": " ++ compact v) ++ "\n\x7d"

mutual

def display : Json → String
  | null => "None"
  | bool b => if b then "True" else "False"
  | int n => toString n
  | float x => x.toText
  | text s => Text.quoted s
  | halfText codes => Text.quoted (shownText codes)
  | list xs => "[" ++ ", ".intercalate (displayItems xs) ++ "]"
  | object fields => "\x7b" ++ ", ".intercalate (displayFields fields) ++ "\x7d"

def displayItems : List Json → List String
  | [] => []
  | x :: xs => display x :: displayItems xs

def displayFields : List (String × Json) → List String
  | [] => []
  | (k, v) :: rest => (Text.quoted k ++ ": " ++ display v) :: displayFields rest

end

/-- The text of a value in a message: a text as it is, all else in display form. -/
def messageText : Json → String
  | text s => s
  | halfText codes => shownText codes
  | v => v.display

end TeamVault.Json
