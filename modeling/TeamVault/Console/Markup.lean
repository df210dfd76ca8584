import TeamVault.Text.Blank
import TeamVault.Text.LowerCase
import TeamVault.Text.Parts

/-!
Marked-up text. A tag in brackets starts a style, and a closing tag ends the style that it names or,
without a name, the last one. What is shown is the text without its tags; a backslash before a tag
shows the tag itself. Escaped text shows itself.

Styles are followed as far as their names tell two of them apart: the colours are the basic ones and
those of six hexadecimal digits, and a tag with an at sign opens and closes like any other, whatever
stands behind its equals sign. The terminal is taken to accept every text.
-/
namespace TeamVault.Console

namespace Markup

def startsTag (c : Char) : Bool :=
  ('a' ≤ c && c ≤ 'z') || c == '#' || c == '/' || c == '@'

def tag? (cs : List Char) : Option (List Char × List Char) :=
  match cs with
  | c :: _ =>
    if startsTag c then
      let inside := cs.takeWhile fun d => d != '[' && d != ']'
      match cs.drop inside.length with
      | ']' :: rest => some (inside, rest)
      | _ => none
    else none
  | [] => none

inductive Piece
  | plain (text : List Char)
  | tag (inside : List Char)

def tagged? (cs : List Char) : Option (Nat × List Char × List Char) :=
  let slashes := (cs.takeWhile (· == '\\')).length
  match cs.drop slashes with
  | '[' :: rest => (tag? rest).map fun (inside, rest) => (slashes, inside, rest)
  | _ => none

/-- The pieces that end before a tag: two backslashes show one, and an odd one shows the tag. -/
def piecesOfTag (slashes : Nat) (inside : List Char) : List Piece :=
  (if slashes < 2 then [] else [.plain (List.replicate (slashes / 2) '\\')]) ++
    [if slashes % 2 = 1 then .plain ('[' :: inside ++ [']']) else .tag inside]

def flush (seen : List Char) : List Piece := if seen.isEmpty then [] else [.plain seen.reverse]

def pieces : Nat → List Char → List Char → List Piece
  | 0, seen, cs => [.plain (seen.reverse ++ cs)]
  | _, seen, [] => flush seen
  | fuel + 1, seen, c :: rest =>
    match tagged? (c :: rest) with
    | some (slashes, inside, rest) =>
      flush seen ++ piecesOfTag slashes inside ++ pieces fuel [] rest
    | none => pieces fuel (c :: seen) rest

def shown : List Char → List Char
  | [] => []
  | '\\' :: '[' :: rest => '[' :: shown rest
  | c :: rest =>
    if c.toNat = 7 ∨ c.toNat = 8 ∨ c.toNat = 11 ∨ c.toNat = 12 ∨ c.toNat = 13 then shown rest
    else c :: shown rest

/-! ### Names of styles -/

def attributes : List (String × List String) :=
  [("bold", ["b"]), ("dim", ["d"]), ("italic", ["i"]), ("underline", ["u"]), ("blink", []),
    ("blink2", []), ("reverse", ["r"]), ("conceal", ["c"]), ("strike", ["s"]),
    ("underline2", ["uu"]), ("frame", []), ("encircle", []), ("overline", ["o"])]

def attribute? (word : String) : Option String :=
  (attributes.find? fun (name, short) => word = name ∨ word ∈ short).map Prod.fst

def basicColours : List String :=
  ["black", "red", "green", "yellow", "blue", "magenta", "cyan", "white"]

def isColour (word : String) : Bool :=
  word = "default" || word ∈ basicColours || word ∈ basicColours.map ("bright_" ++ ·) ||
    match word.toList with
    | '#' :: ds => ds.length = 6 && ds.all fun c => c.isDigit || ('a' ≤ c && c ≤ 'f')
    | _ => false

structure Style where
  attributes : List (String × Bool)
  colour : Option String
  background : Option String
  link : Option String

def style? (s : Style) : List String → Option Style
  | [] => some s
  | word :: rest =>
    let lower := Text.lowerCase word
    if lower = "on" then match rest with
      | c :: rest =>
        let colour := Text.lowerCase c
        if isColour colour then style? { s with background := some colour } rest else none
      | [] => none
    else if lower = "not" then match rest with
      | a :: rest => match attribute? a with
        | some name => style? { s with attributes := (name, false) :: s.attributes } rest
        | none => none
      | [] => none
    else if lower = "link" then match rest with
      | l :: rest => style? { s with link := some l } rest
      | [] => none
    else match attribute? lower with
      | some name => style? { s with attributes := (name, true) :: s.attributes } rest
      | none => if isColour lower then style? { s with colour := some lower } rest else none

def Style.words (s : Style) : List String :=
  (Markup.attributes.filterMap fun (name, _) => (s.attributes.lookup name).map fun on =>
    if on then name else "not " ++ name) ++
    s.colour.toList ++ (s.background.map ("on " ++ ·)).toList ++ (s.link.map ("link " ++ ·)).toList

def words (cs : List Char) : List String :=
  ((Text.cut Text.isBlank cs).filter (· ≠ [])).map String.ofList

/-- One name for all ways to write a style; what is no style stands for itself. -/
def styleName (cs : List Char) : String :=
  match words cs with
  | [] | ["none"] => "none"
  | ws => match style? ⟨[], none, none, none⟩ ws with
    | some s => " ".intercalate s.words
    | none => Text.lowerCase (String.ofList (Text.trimChars cs))

def tagName (inside : List Char) : List Char := inside.takeWhile (· != '=')

/-- What the pieces show, given the names of the open tags, the last first; `none` where a closing
tag has nothing to close. -/
def shownBy? (opened : List String) : List Piece → Option (List Char)
  | [] => some []
  | .plain text :: rest => (shownBy? opened rest).map (shown text ++ ·)
  | .tag inside :: rest =>
    match tagName inside with
    | '/' :: name =>
      if (Text.trimChars name).isEmpty then
        match opened with
        | [] => none
        | _ :: others => shownBy? others rest
      else
        let name := styleName (Text.trimChars name)
        if name ∈ opened then shownBy? (opened.erase name) rest else none
    | name => shownBy? (styleName name :: opened) rest

end Markup

def plainText? (s : String) : Option String :=
  (Markup.shownBy? [] (Markup.pieces (s.length + 1) [] s.toList)).map String.ofList

namespace Markup

def escapeFrom : Nat → List Char → List Char
  | 0, cs => cs
  | _, [] => []
  | fuel + 1, c :: rest =>
    match tagged? (c :: rest) with
    | some (slashes, inside, rest) =>
      List.replicate (2 * slashes + 1) '\\' ++ '[' :: inside ++ ']' :: escapeFrom fuel rest
    | none => c :: escapeFrom fuel rest

end Markup

/-- Text that shows itself where marked-up text is expected. A single backslash at the end is
doubled, so that it does not meet a bracket behind it. -/
def escape (s : String) : String :=
  let cs := Markup.escapeFrom (s.length + 1) s.toList
  String.ofList (match cs.reverse with
    | '\\' :: '\\' :: _ => cs
    | '\\' :: _ => cs ++ ['\\']
    | _ => cs)

end TeamVault.Console
