import TeamVault.Yaml.Scalar
import TeamVault.Text.Utf8

/-!
Tokens of YAML text. Indentation becomes start and end tokens of blocks, and a key that no mark
announces is found when its colon is met: the key's tokens then stand where it began.
-/
namespace TeamVault.Yaml

structure TagText where
  handle : Option String
  rest : String

inductive Token
  | directive (name : String) (version : Option (Nat × Nat)) (tag : Option (String × String))
  | documentStart
  | documentEnd
  | blockSequenceStart
  | blockMappingStart
  | blockEnd
  | flowSequenceStart
  | flowSequenceEnd
  | flowMappingStart
  | flowMappingEnd
  | flowEntry
  | blockEntry
  | key
  | value
  | alias (name : String)
  | anchor (name : String)
  | tag (t : TagText)
  | scalar (text : String) (plain : Bool)

structure KeyPlace where
  tokens : Nat
  required : Bool
  index : Nat
  line : Nat
  column : Nat

structure Lexer where
  place : Cursor
  tokens : List Token
  flow : Nat
  indent : Int
  outer : List Int
  keyAllowed : Bool
  keys : List (Nat × KeyPlace)

namespace Lexer

def start (cs : List Char) : Lexer := ⟨.start cs, [], 0, -1, [], true, []⟩

def push (l : Lexer) (t : Token) : Lexer := { l with tokens := t :: l.tokens }

def keyReach : Nat := 1024

def dropStale (l : Lexer) : Except Problem Lexer :=
  let isStale (k : KeyPlace) : Bool := k.line != l.place.line || l.place.index - k.index > keyReach
  if l.keys.any fun (_, k) => isStale k && k.required then .error .malformed
  else .ok { l with keys := l.keys.filter fun (_, k) => !isStale k }

def dropKey (l : Lexer) : Except Problem Lexer :=
  if l.keys.any fun (d, k) => d == l.flow && k.required then .error .malformed
  else .ok { l with keys := l.keys.filter fun (d, _) => d != l.flow }

def noteKey (l : Lexer) : Except Problem Lexer := do
  if l.keyAllowed then
    let required := l.flow == 0 && l.indent == (l.place.column : Int)
    let l ← l.dropKey
    return { l with keys := (l.flow, ⟨l.tokens.length, required, l.place.index, l.place.line,
      l.place.column⟩) :: l.keys }
  else return l

def unwind (l : Lexer) (column : Int) : Lexer :=
  if l.flow ≠ 0 then l
  else
    let rec go (indent : Int) (outer : List Int) (tokens : List Token) : Lexer :=
      if column < indent then
        match outer with
        | o :: rest => go o rest (.blockEnd :: tokens)
        | [] => { l with indent := -1, outer := [], tokens := .blockEnd :: tokens }
      else { l with indent := indent, outer := outer, tokens := tokens }
    go l.indent l.outer l.tokens

def opensBlock (l : Lexer) (column : Nat) : Bool := l.indent < (column : Int)

def enterBlock (l : Lexer) (column : Nat) : Lexer :=
  if l.opensBlock column then { l with outer := l.indent :: l.outer, indent := column } else l

def insertAt (l : Lexer) (n : Nat) (ts : List Token) : Lexer :=
  let later := l.tokens.take (l.tokens.length - n)
  { l with tokens := later ++ ts.reverse ++ l.tokens.drop (l.tokens.length - n) }

def advance (l : Lexer) (n : Nat) : Lexer := { l with place := l.place.skip n }

def skipGaps : Nat → Lexer → Lexer
  | 0, l => l
  | fuel + 1, l =>
    let c := l.place.skipWhile (· == ' ')
    let c := if startsWith (· == '#') c.rest then c.skipWhile (fun ch => !isBreak ch) else c
    if c.atBreak then
      skipGaps fuel
        { l with place := c.lineBreak.2, keyAllowed := l.keyAllowed || l.flow == 0 }
    else { l with place := c }

/-! ### Directives, anchors and tags -/

def isUriChar (c : Char) : Bool :=
  c.isAlphanum || "-;/?:@&=+$,_.!~*'()[]%".toList.contains c

def uriBytes : List Char → Except Problem (Bytes × List Char)
  | '%' :: a :: b :: rest =>
    match Json.Reader.hexValue? a, Json.Reader.hexValue? b with
    | some x, some y => do
      let (bs, rest) ← uriBytes rest
      return ((16 * x + y).toUInt8 :: bs, rest)
    | _, _ => .error .malformed
  | '%' :: _ => .error .malformed
  | cs => .ok ([], cs)

def uriText : Nat → List Char → Except Problem (List Char)
  | 0, _ => .error .malformed
  | _, [] => .ok []
  | fuel + 1, '%' :: rest => do
    let (bs, rest) ← uriBytes ('%' :: rest)
    match Text.Utf8.decode? bs with
    | some s => return s.toList ++ (← uriText fuel rest)
    | none => .error .malformed
  | fuel + 1, c :: rest => do return c :: (← uriText fuel rest)

def uri (c : Cursor) : Except Problem (String × Cursor) := do
  let (cs, c) := c.span isUriChar
  if cs.isEmpty then .error .malformed
  else return (String.ofList (← uriText (cs.length + 1) cs), c)

def tagHandle (c : Cursor) : Except Problem (String × Cursor) :=
  match c.rest with
  | '!' :: ' ' :: _ => .ok ("!", c.next)
  | '!' :: rest =>
    let word := rest.takeWhile isWordChar
    if startsWith (· == '!') (rest.drop word.length) then
      .ok (String.ofList ('!' :: word ++ ['!']), c.skip (word.length + 2))
    else .error .malformed
  | _ => .error .malformed

def number (c : Cursor) : Except Problem (Nat × Cursor) :=
  let (ds, c) := c.span Json.Reader.isDigit
  if ds.isEmpty then .error .malformed else .ok (Json.Reader.natOfDigits ds, c)

def endsName (cs : List Char) : Bool := endsWith (fun ch => ch == ' ' || isBreak ch) cs

def directive (c : Cursor) : Except Problem (Token × Cursor) := do
  let (name, c) := c.span isWordChar
  if name.isEmpty || !endsName c.rest then .error .malformed
  else match String.ofList name with
    | "YAML" =>
      let (major, c) ← number (c.skipWhile (· == ' '))
      if startsWith (· == '.') c.rest then
        let (minor, c) ← number c.next
        if endsName c.rest then return (.directive "YAML" (some (major, minor)) none, ← c.endLine)
        else .error .malformed
      else .error .malformed
    | "TAG" =>
      let (handle, c) ← tagHandle (c.skipWhile (· == ' '))
      if startsWith (· == ' ') c.rest then
        let (start, c) ← uri (c.skipWhile (· == ' '))
        if endsName c.rest then return (.directive "TAG" none (some (handle, start)), ← c.endLine)
        else .error .malformed
      else .error .malformed
    | other =>
      return (.directive other none none, ← (c.skipWhile fun ch => !isBreak ch).endLine)

def anchorName (c : Cursor) : Except Problem (String × Cursor) :=
  let (name, c) := c.span isWordChar
  if name.isEmpty ||
      !endsWith (fun ch => isGapChar ch || "?:,]\x7d%@\x60".toList.contains ch) c.rest then
    .error .malformed
  else .ok (String.ofList name, c)

/-- A handle is written only where another mark follows in the same word. -/
def hasHandle : List Char → Bool
  | [] => false
  | c :: rest => c == '!' || (!(c == ' ' || isBreak c) && hasHandle rest)

def tagText (c : Cursor) : Except Problem (TagText × Cursor) := do
  let (t, c) ← match c.next.rest with
    | '<' :: _ => do
      let (suffix, c) ← uri (c.skip 2)
      if startsWith (· == '>') c.rest then pure (⟨none, suffix⟩, c.next) else .error .malformed
    | rest =>
      if endsWith isGapChar rest then pure (⟨none, "!"⟩, c.next)
      else if hasHandle rest then do
        let (handle, c) ← tagHandle c
        let (suffix, c) ← uri c
        pure (⟨some handle, suffix⟩, c)
      else do
        let (suffix, c) ← uri c.next
        pure (⟨some "!", suffix⟩, c)
  if endsName c.rest then return (t, c) else .error .malformed

/-! ### One token after the other -/

def toTop (l : Lexer) : Except Problem Lexer := do
  let l ← (l.unwind (-1)).dropKey
  return { l with keyAllowed := false }

def collectionStart (l : Lexer) (t : Token) : Except Problem Lexer := do
  let l ← l.noteKey
  return ({ l with flow := l.flow + 1, keyAllowed := true }.advance 1).push t

def collectionEnd (l : Lexer) (t : Token) : Except Problem Lexer := do
  let l ← l.dropKey
  if l.flow = 0 then .error .malformed
  else return ({ l with flow := l.flow - 1, keyAllowed := false }.advance 1).push t

def blockEntry (l : Lexer) : Except Problem Lexer := do
  if l.flow = 0 && !l.keyAllowed then .error .malformed
  else
    let column := l.place.column
    let l := if l.flow = 0 && l.opensBlock column then
      (l.enterBlock column).push .blockSequenceStart else l
    let l ← { l with keyAllowed := true }.dropKey
    return (l.advance 1).push .blockEntry

def announcedKey (l : Lexer) : Except Problem Lexer := do
  if l.flow = 0 && !l.keyAllowed then .error .malformed
  else
    let column := l.place.column
    let l := if l.flow = 0 && l.opensBlock column then
      (l.enterBlock column).push .blockMappingStart else l
    let l ← { l with keyAllowed := l.flow == 0 }.dropKey
    return (l.advance 1).push .key

/-- A colon after a key: the key begins where one was possible. -/
def valueMark (l : Lexer) : Except Problem Lexer := do
  match l.keys.find? fun (d, _) => d == l.flow with
  | some (_, k) =>
    let l := { l with keys := l.keys.filter fun (d, _) => d != l.flow }
    let l := if l.flow = 0 && l.opensBlock k.column then
        (l.enterBlock k.column).insertAt k.tokens [.blockMappingStart, .key]
      else l.insertAt k.tokens [.key]
    return ({ l with keyAllowed := false }.advance 1).push .value
  | none =>
    if l.flow = 0 && !l.keyAllowed then .error .malformed
    else
      let column := l.place.column
      let l := if l.flow = 0 && l.opensBlock column then
        (l.enterBlock column).push .blockMappingStart else l
      let l ← { l with keyAllowed := l.flow == 0 }.dropKey
      return (l.advance 1).push .value

def keyPart (l : Lexer) (read : Cursor → Except Problem (Token × Cursor)) :
    Except Problem Lexer := do
  let l ← l.noteKey
  let (t, c) ← read l.place
  return { l with keyAllowed := false, place := c }.push t

def scalarToken (isPlain : Bool) (seen : List Char) : Token :=
  .scalar (String.ofList seen.reverse) isPlain

def plainScalar (l : Lexer) : Except Problem Lexer := do
  let l ← l.noteKey
  let (seen, lineEnded, c) := Scalar.plain (l.flow != 0) (l.indent + 1) (l.place.rest.length + 1)
    [] [] false l.place
  return { l with keyAllowed := lineEnded, place := c }.push (scalarToken true seen)

def quotedScalar (l : Lexer) (double : Bool) : Except Problem Lexer :=
  l.keyPart fun c => do
    let (seen, c) ← Scalar.quoted double (c.rest.length + 1) [] c.next
    return (scalarToken false seen, c)

def blockScalar (l : Lexer) (folded : Bool) : Except Problem Lexer := do
  let l ← { l with keyAllowed := true }.dropKey
  let (seen, c) ← Scalar.block folded l.indent l.place.next
  return { l with place := c }.push (scalarToken false seen)

def startsPlain (l : Lexer) (ch : Char) (rest : List Char) : Bool :=
  !(isGapChar ch || "-?:,[]\x7b\x7d#&*!|>'\"%@\x60".toList.contains ch) ||
    (!endsWith isGapChar rest && (ch == '-' || (l.flow == 0 && (ch == '?' || ch == ':'))))

def step (l : Lexer) : Except Problem (Option Lexer) := do
  let l := skipGaps (l.place.rest.length + 1) l
  let l ← l.dropStale
  let l := l.unwind l.place.column
  match l.place.rest with
  | [] => return none
  | ch :: rest =>
    let c := l.place
    let alone := endsWith isGapChar rest
    some <$> (
      if c.column = 0 && ch == '%' then do
        let l ← l.toTop
        let (t, c) ← directive l.place.next
        return { l with place := c }.push t
      else if c.column = 0 && c.atSeparator then do
        let l ← l.toTop
        return (l.advance 3).push (if ch == '-' then .documentStart else .documentEnd)
      else if ch == '[' then l.collectionStart .flowSequenceStart
      else if ch == '\x7b' then l.collectionStart .flowMappingStart
      else if ch == ']' then l.collectionEnd .flowSequenceEnd
      else if ch == '\x7d' then l.collectionEnd .flowMappingEnd
      else if ch == ',' then do
        let l ← { l with keyAllowed := true }.dropKey
        return (l.advance 1).push .flowEntry
      else if ch == '-' && alone then l.blockEntry
      else if ch == '?' && (l.flow ≠ 0 || alone) then l.announcedKey
      else if ch == ':' && (l.flow ≠ 0 || alone) then l.valueMark
      else if ch == '*' then l.keyPart fun c => do
        let (name, c) ← anchorName c.next
        return (.alias name, c)
      else if ch == '&' then l.keyPart fun c => do
        let (name, c) ← anchorName c.next
        return (.anchor name, c)
      else if ch == '!' then l.keyPart fun c => do
        let (t, c) ← tagText c
        return (.tag t, c)
      else if ch == '|' && l.flow = 0 then l.blockScalar false
      else if ch == '>' && l.flow = 0 then l.blockScalar true
      else if ch == '\'' then l.quotedScalar false
      else if ch == '"' then l.quotedScalar true
      else if l.startsPlain ch rest then l.plainScalar
      else .error .malformed)

def finish (l : Lexer) : Except Problem Lexer := (l.unwind (-1)).dropKey

def run : Nat → Lexer → List Token × Option Problem
  | 0, l => (l.tokens.reverse, some .malformed)
  | fuel + 1, l =>
    match l.step with
    | .error p => (l.tokens.reverse, some p)
    | .ok (some l) => run fuel l
    | .ok none => match (skipGaps (l.place.rest.length + 1) l).finish with
      | .ok l => (l.tokens.reverse, none)
      | .error p => (l.tokens.reverse, some p)

end Lexer

def Token.ofChars (cs : List Char) : List Token × Option Problem :=
  let cs := if cs.head? = some byteOrderMark then cs.drop 1 else cs
  Lexer.run (cs.length + 1) (Lexer.start cs)

end TeamVault.Yaml
