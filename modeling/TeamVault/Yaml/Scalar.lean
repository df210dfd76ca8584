import TeamVault.Yaml.Cursor
import TeamVault.Json.Reader

/-!
Reading the scalars of YAML text: plain, in quotes, and in blocks. Line breaks inside a scalar are
folded; texts are collected with their last character first. An escape for half of a surrogate pair
gives the replacement character, so that what is proved of these texts is proved of texts without
halves.
-/
namespace TeamVault.Yaml.Scalar

abbrev Scanned := Except Problem (List Char × Cursor)

/-! ### Plain scalars -/

/-- Where a plain scalar ends inside a line: at a gap, at a colon that ends a key, and between
brackets at a mark of the collection. -/
def plainLength (inFlow : Bool) : List Char → Nat
  | [] => 0
  | c :: rest =>
    let ends := isGapChar c ||
      (c == ':' && endsWith (fun d => isGapChar d ||
        (inFlow && [',', '[', ']', '\x7b', '\x7d'].contains d)) rest) ||
      (inFlow && [',', '?', '[', ']', '\x7b', '\x7d'].contains c)
    if ends then 0 else plainLength inFlow rest + 1

def emptyLines : Nat → List Char → Cursor → Option (List Char) × Cursor
  | 0, breaks, c => (some breaks, c)
  | fuel + 1, breaks, c =>
    if startsWith (· == ' ') c.rest then emptyLines fuel breaks c.next
    else if c.atBreak then
      let (b, c) := c.lineBreak
      if c.atSeparator then (none, c) else emptyLines fuel (breaks ++ b) c
    else (some breaks, c)

/-- One line break folds to a blank; of several the first one falls away. -/
def fold (lineBreak breaks : List Char) : List Char :=
  (if lineBreak ≠ ['\n'] then lineBreak else if breaks.isEmpty then [' '] else []) ++ breaks

def plainGap (c : Cursor) : List Char × Bool × Cursor :=
  let (blanks, c) := c.span (· == ' ')
  if c.atBreak then
    let (b, c) := c.lineBreak
    if c.atSeparator then ([], true, c)
    else match emptyLines c.rest.length [] c with
      | (some breaks, c) => (fold b breaks, true, c)
      | (none, c) => ([], true, c)
  else (blanks, false, c)

def plain (inFlow : Bool) (indent : Int) :
    Nat → List Char → List Char → Bool → Cursor → List Char × Bool × Cursor
  | 0, seen, _, lineEnded, c => (seen, lineEnded, c)
  | fuel + 1, seen, gap, lineEnded, c =>
    let n := plainLength inFlow c.rest
    if startsWith (· == '#') c.rest || n == 0 then (seen, lineEnded, c)
    else
      let seen := (c.rest.take n).reverse ++ gap.reverse ++ seen
      let (gap, lineEnded, c) := plainGap (c.skip n)
      if gap.isEmpty || startsWith (· == '#') c.rest || (!inFlow && (c.column : Int) < indent) then
        (seen, lineEnded, c)
      else plain inFlow indent fuel seen gap lineEnded c

/-! ### Quoted scalars -/

def simpleEscape? : Char → Option Char
  | '0' => some '\x00'
  | 'a' => some '\x07'
  | 'b' => some '\x08'
  | 't' | '\t' => some '\t'
  | 'n' => some '\n'
  | 'v' => some '\x0b'
  | 'f' => some '\x0c'
  | 'r' => some '\r'
  | 'e' => some '\x1b'
  | ' ' => some ' '
  | '"' => some '"'
  | '\\' => some '\\'
  | '/' => some '/'
  | 'N' => some '\x85'
  | '_' => some '\xa0'
  | 'L' => some '\u2028'
  | 'P' => some '\u2029'
  | _ => none

def codeLength? : Char → Option Nat
  | 'x' => some 2
  | 'u' => some 4
  | 'U' => some 8
  | _ => none

/-- A character by its code; half of a surrogate pair stands as the replacement character. -/
def codeChar (digits : List Char) : Except Problem Char :=
  match digits.mapM Json.Reader.hexValue? with
  | none => .error .malformed
  | some ds =>
    let n := ds.foldl (fun n d => 16 * n + d) 0
    if 0x110000 ≤ n then .error .badValue
    else .ok (if Json.isHalf n then '\uFFFD' else Char.ofNat n)

def quotedBreaks : Nat → List Char → Cursor → Scanned
  | 0, _, _ => .error .malformed
  | fuel + 1, breaks, c =>
    if c.atSeparator then .error .malformed
    else
      let c := c.skipWhile fun ch => ch == ' ' || ch == '\t'
      if c.atBreak then
        let (b, c) := c.lineBreak
        quotedBreaks fuel (breaks ++ b) c
      else .ok (breaks, c)

def quotedGap (c : Cursor) : Scanned :=
  let (blanks, c) := c.span fun ch => ch == ' ' || ch == '\t'
  if c.rest.isEmpty then .error .malformed
  else if c.atBreak then do
    let (b, c) := c.lineBreak
    let (breaks, c) ← quotedBreaks (c.rest.length + 1) [] c
    return (fold b breaks, c)
  else .ok (blanks, c)

def escape (c : Cursor) : Scanned :=
  match c.rest with
  | [] => .error .malformed
  | ch :: rest =>
    match simpleEscape? ch, codeLength? ch with
    | some d, _ => .ok ([d], c.next)
    | none, some n =>
      if rest.length < n then .error .malformed
      else do
        let d ← codeChar (rest.take n)
        return ([d], c.skip (n + 1))
    | none, none =>
      if isBreak ch then quotedBreaks (c.rest.length + 1) [] c.lineBreak.2
      else .error .malformed

def quoted (double : Bool) : Nat → List Char → Cursor → Scanned
  | 0, _, _ => .error .malformed
  | fuel + 1, seen, c =>
    match c.rest with
    | [] => .error .malformed
    | ch :: rest =>
      if isGapChar ch then do
        let (gap, c) ← quotedGap c
        quoted double fuel (gap.reverse ++ seen) c
      else if double && ch == '\\' then do
        let (cs, c) ← escape c.next
        quoted double fuel (cs.reverse ++ seen) c
      else if double && ch == '"' then .ok (seen, c.next)
      else if !double && ch == '\'' then
        if startsWith (· == '\'') rest then quoted double fuel ('\'' :: seen) (c.skip 2)
        else .ok (seen, c.next)
      else quoted double fuel (ch :: seen) c.next

/-! ### Block scalars -/

inductive Chomping
  | clip
  | strip
  | keep
  deriving DecidableEq

def chomping? : Char → Option Chomping
  | '+' => some .keep
  | '-' => some .strip
  | _ => none

def increment? (cs : List Char) : Except Problem (Option Nat) :=
  match cs with
  | d :: _ =>
    if d == '0' then .error .malformed
    else if Json.Reader.isDigit d then .ok (some (Json.Reader.digitValue d))
    else .ok none
  | [] => .ok none

def blockHeader (c : Cursor) : Except Problem (Chomping × Option Nat × Cursor) := do
  let (chomping, increment, c) ← match c.rest.head?.bind chomping? with
    | some k => do
      let c := c.next
      match ← increment? c.rest with
      | some n => pure (k, some n, c.next)
      | none => pure (k, none, c)
    | none => do
      match ← increment? c.rest with
      | some n =>
        let c := c.next
        match c.rest.head?.bind chomping? with
        | some k => pure (k, some n, c.next)
        | none => pure (.clip, some n, c)
      | none => pure (.clip, none, c)
  if endsWith (fun ch => ch == ' ' || isBreak ch) c.rest then
    return (chomping, increment, ← c.endLine)
  else .error .malformed

def skipIndent (indent : Nat) : Nat → Cursor → Cursor
  | 0, c => c
  | fuel + 1, c =>
    if c.column < indent && startsWith (· == ' ') c.rest then skipIndent indent fuel c.next else c

def blockBreaks (indent : Nat) : Nat → List Char → Cursor → List Char × Cursor
  | 0, breaks, c => (breaks, c)
  | fuel + 1, breaks, c =>
    let c := skipIndent indent indent c
    if c.atBreak then
      let (b, c) := c.lineBreak
      blockBreaks indent fuel (breaks ++ b) c
    else (breaks, c)

def blockIndentation : Nat → List Char → Nat → Cursor → List Char × Nat × Cursor
  | 0, breaks, furthest, c => (breaks, furthest, c)
  | fuel + 1, breaks, furthest, c =>
    if startsWith (· == ' ') c.rest then
      let c := c.next
      blockIndentation fuel breaks (max furthest c.column) c
    else if c.atBreak then
      let (b, c) := c.lineBreak
      blockIndentation fuel (breaks ++ b) furthest c
    else (breaks, furthest, c)

def startsBlank (cs : List Char) : Bool := startsWith (fun ch => ch == ' ' || ch == '\t') cs

def blockLines (folded : Bool) (indent : Nat) :
    Nat → List Char → List Char → List Char → Cursor → List Char × List Char × List Char × Cursor
  | 0, seen, lineBreak, breaks, c => (seen, lineBreak, breaks, c)
  | fuel + 1, seen, lineBreak, breaks, c =>
    if c.column = indent && !c.rest.isEmpty then
      let seen := breaks.reverse ++ seen
      let textual := !startsBlank c.rest
      let (line, c) := c.span fun ch => !isBreak ch
      let seen := line.reverse ++ seen
      let (lineBreak, c) := c.lineBreak
      let (breaks, c) := blockBreaks indent (c.rest.length + 1) [] c
      if c.column = indent && !c.rest.isEmpty then
        let joint :=
          if folded && lineBreak == ['\n'] && textual && !startsBlank c.rest then
            (if breaks.isEmpty then [' '] else [])
          else lineBreak
        blockLines folded indent fuel (joint.reverse ++ seen) lineBreak breaks c
      else (seen, lineBreak, breaks, c)
    else (seen, lineBreak, breaks, c)

def block (folded : Bool) (outer : Int) (c : Cursor) : Scanned := do
  let (chomping, increment, c) ← blockHeader c
  let least := (max (outer + 1) 1).toNat
  let fuel := c.rest.length + 1
  let (indent, breaks, c) := match increment with
    | some n =>
      let indent := least + n - 1
      let (breaks, c) := blockBreaks indent fuel [] c
      (indent, breaks, c)
    | none =>
      let (breaks, furthest, c) := blockIndentation fuel [] 0 c
      (max least furthest, breaks, c)
  let (seen, lineBreak, breaks, c) := blockLines folded indent fuel [] [] breaks c
  let tail := match chomping with
    | .strip => []
    | .clip => lineBreak
    | .keep => lineBreak ++ breaks
  return (tail.reverse ++ seen, c)

end TeamVault.Yaml.Scalar
