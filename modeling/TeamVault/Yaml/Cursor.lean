/-! A place in YAML text: what follows it, and its line and column. -/
namespace TeamVault.Yaml

inductive Problem
  | malformed
  | badValue
  | badTimestamp
  | badTruth
  deriving DecidableEq

structure Cursor where
  rest : List Char
  index : Nat
  line : Nat
  column : Nat

def byteOrderMark : Char := '\uFEFF'

def isBreak (c : Char) : Bool :=
  c == '\n' || c == '\r' || c == '\x85' || c == '\u2028' || c == '\u2029'

def isGapChar (c : Char) : Bool := c == ' ' || c == '\t' || isBreak c

def endsWith (p : Char → Bool) : List Char → Bool
  | [] => true
  | c :: _ => p c

def startsWith (p : Char → Bool) : List Char → Bool
  | [] => false
  | c :: _ => p c

def isWordChar (c : Char) : Bool := c.isAlphanum || c == '-' || c == '_'

namespace Cursor

def start (cs : List Char) : Cursor := ⟨cs, 0, 0, 0⟩

/-- Goes one character on. The byte order mark takes no column. -/
def next (c : Cursor) : Cursor :=
  match c.rest with
  | [] => c
  | ch :: rest =>
    if isBreak ch && !(ch == '\r' && startsWith (· == '\n') rest) then
      ⟨rest, c.index + 1, c.line + 1, 0⟩
    else ⟨rest, c.index + 1, c.line, if ch == byteOrderMark then c.column else c.column + 1⟩

def skip (c : Cursor) : Nat → Cursor
  | 0 => c
  | n + 1 => c.next.skip n

def span (p : Char → Bool) (c : Cursor) : List Char × Cursor :=
  let cs := c.rest.takeWhile p
  (cs, c.skip cs.length)

def skipWhile (p : Char → Bool) (c : Cursor) : Cursor := (c.span p).2

def lineBreak (c : Cursor) : List Char × Cursor :=
  match c.rest with
  | '\r' :: '\n' :: _ => (['\n'], c.skip 2)
  | ch :: _ =>
    if ch == '\u2028' || ch == '\u2029' then ([ch], c.next)
    else if isBreak ch then (['\n'], c.next)
    else ([], c)
  | [] => ([], c)

def atBreak (c : Cursor) : Bool := startsWith isBreak c.rest

def atSeparator (c : Cursor) : Bool :=
  match c.rest with
  | '-' :: '-' :: '-' :: rest | '.' :: '.' :: '.' :: rest => endsWith isGapChar rest
  | _ => false

def endLine (c : Cursor) : Except Problem Cursor :=
  let c := c.skipWhile (· == ' ')
  let c := if startsWith (· == '#') c.rest then c.skipWhile (fun ch => !isBreak ch) else c
  if endsWith isBreak c.rest then .ok c.lineBreak.2 else .error .malformed

end Cursor

end TeamVault.Yaml
