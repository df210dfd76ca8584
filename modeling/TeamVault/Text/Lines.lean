import TeamVault.Text.Parts

/-!
Lines of a text: splitting at every line boundary that Unicode knows, and reading any of the
three common line ends as one.
-/
namespace TeamVault.Text

/-- Line feed, vertical tab, form feed, carriage return, the information separators that end a
record, next line, and the line and paragraph separators. -/
def isLineEnd (c : Char) : Bool :=
  let n := c.toNat
  (0x0A ≤ n && n ≤ 0x0D) || (0x1C ≤ n && n ≤ 0x1E) || n == 0x85 || n == 0x2028 || n == 0x2029

/-- `splitLinesFrom line cs` splits `cs` after an unfinished `line`, which is held reversed. A
carriage return and a line feed together end one line, and no line follows the last line end. -/
def splitLinesFrom : List Char → List Char → List (List Char)
  | [], [] => []
  | line, [] => [line.reverse]
  | line, '\r' :: '\n' :: rest => line.reverse :: splitLinesFrom [] rest
  | line, c :: rest =>
    if isLineEnd c then line.reverse :: splitLinesFrom [] rest
    else splitLinesFrom (c :: line) rest

def splitLines (s : String) : List String :=
  (splitLinesFrom [] s.toList).map String.ofList

def feedLines (s : String) : List String := (cut (· == '\n') s.toList).map String.ofList

def unifyBreaksChars : List Char → List Char
  | [] => []
  | '\r' :: '\n' :: rest => '\n' :: unifyBreaksChars rest
  | c :: rest => (if c = '\r' then '\n' else c) :: unifyBreaksChars rest

def unifyBreaks (s : String) : String := String.ofList (unifyBreaksChars s.toList)

theorem cr_not_mem_unifyBreaksChars (cs : List Char) : '\r' ∉ unifyBreaksChars cs := by
  fun_induction unifyBreaksChars cs with
  | case1 => simp
  | case2 rest ih => simp [ih]
  | case3 c rest _ ih => by_cases h : c = '\r' <;> simp_all [eq_comm]

end TeamVault.Text
