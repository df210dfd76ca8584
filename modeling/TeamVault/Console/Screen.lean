import TeamVault.Console.Markup
import TeamVault.Text.Lines
import TeamVault.World

/-!
What is shown on the terminal. Text, tables and panels are printed from marked-up text; a reader
sees lines of words, with a bar between the columns of a table and at the sides of a panel.
-/
namespace TeamVault.Console

def put (s : String) : Action Unit := Action.update fun w => { w with printed := w.printed ++ s }

def rendered (s : String) : Action String :=
  match plainText? s with
  | some t => pure t
  | none => Action.crash .markup

def printOpen (s : String) : Action Unit := do put ((← rendered s) ++ " ")

def print (s : String) : Action Unit := do put ((← rendered s) ++ "\n")

def rowLines (cells : List String) : List String :=
  let columns := cells.map Text.feedLines
  let height := (columns.map List.length).foldl max 0
  (List.range height).map fun i =>
    "| " ++ " | ".intercalate (columns.map fun lines => lines[i]?.getD "") ++ " |"

def printTable (title : String) (header : List String) (rows : List (List String)) :
    Action Unit := do
  let title ← rendered title
  let rows ← rows.mapM fun row => row.mapM rendered
  put (title ++ "\n" ++ "\n".intercalate ((header :: rows).flatMap rowLines) ++ "\n")

def printPanel (title body : String) : Action Unit := do
  let rows := (Text.feedLines (← rendered body)).flatMap fun l => rowLines [l]
  put (title ++ "\n" ++ "\n".intercalate rows ++ "\n")

def drawn (c : Char) : Char :=
  if c = '│' ∨ c = '┃' then '|'
  else if 0x2500 ≤ c.toNat ∧ c.toNat ≤ 0x257F then ' '
  else c

def lineOf (s : String) : String :=
  " ".intercalate (Markup.words (s.toList.map drawn))

def lines (printed : String) : List String :=
  ((Text.splitLines printed).map lineOf).filter (· ≠ "")

end TeamVault.Console
