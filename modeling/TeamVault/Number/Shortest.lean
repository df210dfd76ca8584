import TeamVault.Number.Binary64

/-!
The shortest decimal that reads back as a given number, and its written form.
-/
namespace TeamVault.Binary64

def magnitudeFrom (num den : Nat) : Nat → Nat → Nat
  | 0, k => k
  | fuel + 1, k => if num < den * Nat.pow 10 k then k else magnitudeFrom num den fuel (k + 1)

def leadingZeros (num den : Nat) : Nat → Nat → Nat
  | 0, k => k
  | fuel + 1, k => if den ≤ num * Nat.pow 10 (k + 1) then k else leadingZeros num den fuel (k + 1)

def magnitude (num den : Nat) : Int :=
  if den ≤ num then magnitudeFrom num den 400 0 else -(leadingZeros num den 400 0 : Int)

def decimalScaled (num den : Nat) (e : Int) : Nat × Nat :=
  if 0 ≤ e then (num, den * Nat.pow 10 e.toNat) else (num * Nat.pow 10 (-e).toNat, den)

/-- The reals that round to `m * 2 ^ e` reach from `low` to `high`, in units of `2 ^ (e - 2)`; the
ends belong to it when `m` is even. -/
def bounds (m : Nat) (e : Int) : Nat × Nat :=
  (if m = Nat.pow 2 52 ∧ -1074 < e then 4 * m - 1 else 4 * m - 2, 4 * m + 2)

def readsBack (m : Nat) (e place : Int) (c : Nat) : Bool :=
  let (low, high) := bounds m e
  let (n, d) := decimalScaled c 1 (-place)
  let (n, d) := if 0 ≤ e - 2 then (n, d * Nat.pow 2 (e - 2).toNat)
    else (n * Nat.pow 2 (2 - e).toNat, d)
  if m % 2 = 0 then low * d ≤ n && n ≤ high * d else low * d < n && n < high * d

/-- Tries decimals of one digit more than `17 - fuel`, then longer ones: of the two neighbours of
the value the nearer that reads back, the even one on a tie. -/
def shortestFrom (m : Nat) (e k : Int) : Nat → Nat × Int
  | 0 => (m, 0)
  | fuel + 1 =>
    let place := k - (17 - fuel : Nat)
    let (num, den) := if 0 ≤ e then (m * Nat.pow 2 e.toNat, 1) else (m, Nat.pow 2 (-e).toNat)
    let (n, d) := decimalScaled num den place
    let q := n / d
    match readsBack m e place q, readsBack m e place (q + 1) with
    | true, true => (Nat.roundDiv n d, place)
    | true, false => (q, place)
    | false, true => (q + 1, place)
    | false, false => shortestFrom m e k fuel

/-- Digits and decimal place of the shortest decimal for `m * 2 ^ e`, with `m` not zero. -/
def shortest (m : Nat) (e : Int) : Nat × Int :=
  let (num, den) := if 0 ≤ e then (m * Nat.pow 2 e.toNat, 1) else (m, Nat.pow 2 (-e).toNat)
  shortestFrom m e (magnitude num den) 17

structure Layout where
  positionalAbove : Int
  positionalUpTo : Int
  exponentDigits : Nat

def layout : Layout := ⟨-4, 16, 2⟩

def zeros (n : Nat) : List Char := List.replicate n '0'

def dropEndZeros (ds : List Char) : List Char := (ds.reverse.dropWhile (· == '0')).reverse

def Layout.write (l : Layout) (digits : List Char) (k : Int) : List Char :=
  if l.positionalAbove < k ∧ k ≤ l.positionalUpTo then
    if k ≤ 0 then ['0', '.'] ++ zeros (-k).toNat ++ digits
    else
      let whole := digits.take k.toNat
      let part := digits.drop k.toNat
      whole ++ zeros (k.toNat - whole.length) ++ ['.'] ++ (if part.isEmpty then ['0'] else part)
  else
    let x := k - 1
    let ds := (toString x.natAbs).toList
    digits.take 1 ++ (if digits.length ≤ 1 then [] else '.' :: digits.drop 1) ++
      ['e', if x < 0 then '-' else '+'] ++ zeros (l.exponentDigits - ds.length) ++ ds

def toText : Binary64 → String
  | .nan => "nan"
  | .infinite negative => if negative then "-inf" else "inf"
  | .finite negative m e =>
    (if negative then "-" else "") ++
      if m = 0 then "0.0"
      else
        let (c, place) := shortest m e
        let ds := (toString c).toList
        String.ofList (layout.write (dropEndZeros ds) (ds.length + place))

end TeamVault.Binary64
