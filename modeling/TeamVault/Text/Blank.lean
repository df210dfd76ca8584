/-!
Blank characters and trimming. Main statement: a trimmed text neither starts nor ends with a
blank character.
-/
namespace TeamVault.Text

/-- The characters that trimming removes: the Unicode separators, the line breaks and the four
information separators. -/
def isBlank (c : Char) : Bool :=
  let n := c.toNat
  (9 ≤ n && n ≤ 13) || (0x1C ≤ n && n ≤ 0x20) || n == 0x85 || n == 0xA0 || n == 0x1680 ||
    (0x2000 ≤ n && n ≤ 0x200A) || n == 0x2028 || n == 0x2029 || n == 0x202F || n == 0x205F ||
    n == 0x3000

def isSpace (c : Char) : Bool := isBlank c && !(0x1C ≤ c.toNat && c.toNat ≤ 0x1F)

def dropBlank (cs : List Char) : List Char := cs.dropWhile isBlank

def dropEndWhile (p : Char → Bool) (cs : List Char) : List Char :=
  (cs.reverse.dropWhile p).reverse

def trimChars (cs : List Char) : List Char := dropEndWhile isBlank (dropBlank cs)

def trim (s : String) : String := String.ofList (trimChars s.toList)

def hasInk (s : String) : Bool := s.toList.any (fun c => !isBlank c)

theorem dropEndWhile_isPrefix (p : Char → Bool) (cs : List Char) : dropEndWhile p cs <+: cs := by
  have h := List.dropWhile_suffix p (l := cs.reverse)
  simpa [dropEndWhile] using List.reverse_prefix.2 h

theorem not_isBlank_of_head? {cs : List Char} {c : Char} (h : (trimChars cs).head? = some c) :
    isBlank c = false := by
  obtain ⟨rest, hr⟩ := dropEndWhile_isPrefix isBlank (dropBlank cs)
  have hd : (dropBlank cs).head? = some c := by
    rw [← hr, List.head?_append, show (dropEndWhile isBlank (dropBlank cs)).head? = some c from h]
    rfl
  have hn := List.head?_dropWhile_not isBlank cs
  rw [show (cs.dropWhile isBlank).head? = some c from hd] at hn
  exact hn

theorem not_isBlank_of_getLast? {cs : List Char} {c : Char}
    (h : (trimChars cs).getLast? = some c) : isBlank c = false := by
  have hn := List.head?_dropWhile_not isBlank (dropBlank cs).reverse
  rw [trimChars, dropEndWhile, List.getLast?_reverse] at h
  rw [h] at hn
  exact hn

end TeamVault.Text
