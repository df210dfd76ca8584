/-!
Binary floating-point numbers with 53-bit significands. Every operation rounds its exact result
once, to the nearest number and to the even significand on a tie.
-/
namespace TeamVault

/-- A finite number is `significand * 2 ^ exponent`. Rounding keeps the significand below `2 ^ 53`
and the exponent least under that bound and at least `-1074`. -/
inductive Binary64
  | finite (negative : Bool) (significand : Nat) (exponent : Int)
  | infinite (negative : Bool)
  | nan
  deriving DecidableEq

/-- The nearest integer to a quotient, the even one on a tie. -/
def Nat.roundDiv (n d : Nat) : Nat :=
  let q := n / d
  let r := n % d
  if 2 * r < d then q else if d < 2 * r then q + 1 else q + q % 2

namespace Binary64

def zero (negative : Bool) : Binary64 := .finite negative 0 (-1074)

def scaled (num den : Nat) (e : Int) : Nat × Nat :=
  if 0 ≤ e then (num, den * Nat.pow 2 e.toNat) else (num * Nat.pow 2 (-e).toNat, den)

def ofRatio (negative : Bool) (num den : Nat) : Binary64 :=
  if num = 0 then zero negative
  else
    let e := max ((num.log2 : Int) - (den.log2 : Int) - 53) (-1074)
    let (n, d) := scaled num den e
    let e := if n / d < Nat.pow 2 53 then e else e + 1
    let (n, d) := scaled num den e
    let m := Nat.roundDiv n d
    let (m, e) := if m = Nat.pow 2 53 then (Nat.pow 2 52, e + 1) else (m, e)
    if 971 < e then .infinite negative else .finite negative m e

def ofFraction (num : Int) (den : Nat) : Binary64 := ofRatio (num < 0) num.natAbs den

def ofInt (n : Int) : Binary64 := ofFraction n 1

def ofDecimal (negative : Bool) (digits : Nat) (exponent : Int) : Binary64 :=
  let length : Int := (Nat.toDigits 10 digits).length
  if digits = 0 || length + exponent < -330 then zero negative
  else if 310 < length + exponent then .infinite negative
  else if 0 ≤ exponent then ofRatio negative (digits * Nat.pow 10 exponent.toNat) 1
  else ofRatio negative digits (Nat.pow 10 (-exponent).toNat)

def fraction? : Binary64 → Option (Int × Nat)
  | .finite negative m e =>
    let (n, d) := if 0 ≤ e then (m * Nat.pow 2 e.toNat, 1) else (m, Nat.pow 2 (-e).toNat)
    some (if negative then -n else n, d)
  | _ => none

def isZero : Binary64 → Bool
  | .finite _ m _ => m == 0
  | _ => false

def isPositive : Binary64 → Bool
  | .finite negative m _ => !negative && m != 0
  | .infinite negative => !negative
  | .nan => false

def toInt? (x : Binary64) : Option Int :=
  x.fraction?.bind fun (n, d) => if n % d = 0 then some (n / d) else none

def floor? (x : Binary64) : Option Int := x.fraction?.map fun (n, d) => n / (d : Int)

def roundUp? (x : Binary64) : Option Int :=
  x.fraction?.map fun (n, d) => (2 * n + d) / (2 * d : Nat)

def fractionPart (x : Binary64) : Binary64 :=
  match x.fraction? with
  | some (n, d) => ofRatio false (n.natAbs % d) d
  | none => x

def add (x y : Binary64) : Binary64 :=
  match x.fraction?, y.fraction? with
  | some (a, b), some (c, d) => ofFraction (a * d + c * b) (b * d)
  | some _, none => y
  | _, _ => x

def mul (x y : Binary64) : Binary64 :=
  match x.fraction?, y.fraction? with
  | some (a, b), some (c, d) => ofFraction (a * c) (b * d)
  | some _, none => y
  | _, _ => x

def divNat (x : Binary64) (k : Nat) : Binary64 :=
  match x.fraction? with
  | some (n, d) => ofFraction n (d * k)
  | none => x

def neg : Binary64 → Binary64
  | .finite negative m e => .finite (!negative) m e
  | .infinite negative => .infinite (!negative)
  | .nan => .nan

def lt (x y : Binary64) : Bool :=
  match x, y with
  | .nan, _ | _, .nan => false
  | .infinite a, .infinite b => a && !b
  | .infinite a, .finite .. => a
  | .finite .., .infinite b => !b
  | .finite .., .finite .. => match x.fraction?, y.fraction? with
    | some (a, b), some (c, d) => a * d < c * b
    | _, _ => false

def toWholeText : Binary64 → String
  | .nan => "nan"
  | .infinite negative => if negative then "-inf" else "inf"
  | .finite negative m e =>
    let n := if 0 ≤ e then m * Nat.pow 2 e.toNat else Nat.roundDiv m (Nat.pow 2 (-e).toNat)
    (if negative then "-" else "") ++ toString n

end Binary64

end TeamVault
