import TeamVault.Yaml.Implicit
import TeamVault.Text.Quoted

/-!
YAML text of block documents whose leaves are texts. A text is written plainly where it reads back
as itself, in single quotes where it has only visible ASCII characters and line breaks, and in
double quotes otherwise; long lines are folded at blanks.
-/
namespace TeamVault.Yaml

inductive Block
  | text (value : String)
  | mapping (entries : List (String × Block))
  | sequence (items : List Block)

namespace Writer

def width : Nat := 80

def indentStep : Nat := 2

def blanks (n : Nat) : List Char := List.replicate n ' '

inductive Style
  | plain
  | single
  | double
  deriving DecidableEq

def isVisible (c : Char) : Bool := ' ' ≤ c && c ≤ '~'

def leadingMarks : List Char :=
  ['#', ',', '[', ']', '\x7b', '\x7d', '&', '*', '!', '|', '>', '\'', '"', '%', '@', '\x60']

def endsWord : List Char → Bool
  | [] => true
  | c :: _ => c == ' ' || c == '\n'

def hasMark : List Char → Bool
  | [] => false
  | ':' :: rest => endsWord rest || hasMark rest
  | ' ' :: '#' :: _ => true
  | _ :: rest => hasMark rest

def startsMarked (cs : List Char) : Bool :=
  ['-', '-', '-'].isPrefixOf cs || ['.', '.', '.'].isPrefixOf cs ||
    match cs with
    | [] => false
    | c :: rest => leadingMarks.contains c || ((c == '?' || c == ':' || c == '-') && endsWord rest)

def blankAtBreak : List Char → Bool
  | ' ' :: '\n' :: _ | '\n' :: ' ' :: _ => true
  | _ :: rest => blankAtBreak rest
  | [] => false

def endsBlank (cs : List Char) : Bool :=
  cs.head? == some ' ' || cs.getLast? == some ' '

/-- The plain style is for one visible line that can stand for nothing but itself. -/
def plainFits (cs : List Char) : Bool :=
  cs.all isVisible && !endsBlank cs && !startsMarked cs && !hasMark cs &&
    Implicit.ofChars cs == .text

def singleFits (cs : List Char) : Bool :=
  cs.all (fun c => isVisible c || c == '\n') && !blankAtBreak cs

def styleOf (cs : List Char) : Style :=
  if plainFits cs then .plain else if singleFits cs then .single else .double

structure Pen where
  written : List Char
  column : Nat

namespace Pen

def put (pen : Pen) (cs : List Char) : Pen :=
  ⟨cs.reverse ++ pen.written, pen.column + cs.length⟩

def newLine (pen : Pen) (empty indent : Nat) : Pen :=
  ⟨blanks indent ++ List.replicate (empty + 1) '\n' ++ pen.written, indent⟩

end Pen

def runs (cs : List Char) : List (List Char) :=
  cs.foldr (fun c parts => match parts with
    | (d :: part) :: more =>
      if (c == ' ') == (d == ' ') && (c == '\n') == (d == '\n') then (c :: d :: part) :: more
      else [c] :: (d :: part) :: more
    | _ => [c] :: parts) []

def writePlain (indent : Nat) (pen : Pen) (cs : List Char) : Pen :=
  (runs cs).foldl (fun pen run =>
    if run = [' '] ∧ width < pen.column then pen.newLine 0 indent else pen.put run) pen

def doubleQuotes (cs : List Char) : List Char :=
  cs.flatMap fun c => if c = '\'' then ['\'', '\''] else [c]

/-- Line breaks are doubled; a single blank inside a line that is too long becomes one. -/
def writeRuns (indent : Nat) (first : Bool) (pen : Pen) : List (List Char) → Pen
  | [] => pen
  | run :: more =>
    let pen :=
      if run = [' '] ∧ width < pen.column ∧ first = false ∧ more ≠ [] then pen.newLine 0 indent
      else if run.head? = some '\n' then pen.newLine run.length indent
      else pen.put (doubleQuotes run)
    writeRuns indent false pen more

def writeSingle (indent : Nat) (pen : Pen) (cs : List Char) : Pen :=
  (writeRuns indent true (pen.put ['\'']) (runs cs)).put ['\'']

def upperHex (width n : Nat) : List Char := (Text.hex width n).map Char.toUpper

def escape? (c : Char) : Option (List Char) :=
  match c.toNat with
  | 0x00 => some ['\\', '0']
  | 0x07 => some ['\\', 'a']
  | 0x08 => some ['\\', 'b']
  | 0x09 => some ['\\', 't']
  | 0x0A => some ['\\', 'n']
  | 0x0B => some ['\\', 'v']
  | 0x0C => some ['\\', 'f']
  | 0x0D => some ['\\', 'r']
  | 0x1B => some ['\\', 'e']
  | 0x22 => some ['\\', '"']
  | 0x5C => some ['\\', '\\']
  | 0x85 => some ['\\', 'N']
  | 0xA0 => some ['\\', '_']
  | 0x2028 => some ['\\', 'L']
  | 0x2029 => some ['\\', 'P']
  | n =>
    if isVisible c then none
    else if n ≤ 0xFF then some ('\\' :: 'x' :: upperHex 2 n)
    else if n ≤ 0xFFFF then some ('\\' :: 'u' :: upperHex 4 n)
    else some ('\\' :: 'U' :: upperHex 8 n)

def foldDouble (indent : Nat) (pen : Pen) (next : Option Char) : Pen :=
  let pen := (pen.put ['\\']).newLine 0 indent
  if next = some ' ' then pen.put ['\\'] else pen

/-- A line may be folded before a blank, before a character after an escape, and after an escape;
neither the first character nor the last one folds. -/
def writeChars (indent : Nat) (first afterEscape : Bool) (pen : Pen) : List Char → Pen
  | [] => pen
  | c :: rest =>
    let inner := !first && !rest.isEmpty
    match escape? c with
    | some e =>
      let pen := pen.put e
      let pen := if inner && width + 1 < pen.column then foldDouble indent pen rest.head? else pen
      writeChars indent false true pen rest
    | none =>
      let pen :=
        if inner && (c == ' ' || afterEscape) && width < pen.column then
          foldDouble indent pen (some c)
        else pen
      writeChars indent false false (pen.put [c]) rest

def writeDouble (indent : Nat) (pen : Pen) (cs : List Char) : Pen :=
  (writeChars indent true false (pen.put ['"']) cs).put ['"']

def writeText (indent : Nat) (pen : Pen) (s : String) : Pen :=
  let cs := s.toList
  match styleOf cs with
  | .plain => writePlain indent pen cs
  | .single => writeSingle indent pen cs
  | .double => writeDouble indent pen cs

mutual

def writeValue (indent : Nat) (pen : Pen) : Block → Pen
  | .text s => writeText (indent + indentStep) (pen.put [' ']) s
  | .mapping entries =>
    writeEntries (indent + indentStep) (pen.newLine 0 (indent + indentStep)) entries
  | .sequence items => writeItems indent (pen.newLine 0 indent) items

def writeEntries (indent : Nat) (pen : Pen) : List (String × Block) → Pen
  | [] => pen
  | [(k, v)] => writeValue indent (pen.put (k.toList ++ [':'])) v
  | (k, v) :: rest =>
    writeEntries indent ((writeValue indent (pen.put (k.toList ++ [':'])) v).newLine 0 indent) rest

def writeItems (indent : Nat) (pen : Pen) : List Block → Pen
  | [] => pen
  | [item] => writeItem indent (pen.put ['-', ' ']) item
  | item :: rest =>
    writeItems indent ((writeItem indent (pen.put ['-', ' ']) item).newLine 0 indent) rest

def writeItem (indent : Nat) (pen : Pen) : Block → Pen
  | .text s => writeText (indent + indentStep) pen s
  | .mapping entries => writeEntries (indent + indentStep) pen entries
  | .sequence items => writeItems (indent + indentStep) pen items

end

end Writer

def Block.render (entries : List (String × Block)) : String :=
  String.ofList ((Writer.writeEntries 0 ⟨[], 0⟩ entries).put ['\n']).written.reverse

end TeamVault.Yaml
