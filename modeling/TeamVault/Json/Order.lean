import TeamVault.Json.Basic

/-!
Order between JSON values. Truth values count as the numbers zero and one. Numbers, texts and
lists have an order each; values of different kinds, and objects, have none.
-/
namespace TeamVault.Json

def ratio? : Json → Option (Int × Nat)
  | bool b => some (if b then 1 else 0, 1)
  | int n => some (n, 1)
  | float (.infinite negative) => some (if negative then -1 else 1, 0)
  | float x => x.fraction?
  | _ => none

def ratioLess (x y : Int × Nat) : Bool :=
  if x.2 = 0 ∧ y.2 = 0 then x.1 < y.1 else x.1 * y.2 < y.1 * x.2

def codes? : Json → Option (List Nat)
  | text s => some (s.toList.map Char.toNat)
  | halfText codes => some codes
  | _ => none

def isNumeric : Json → Bool
  | bool _ | int _ | float _ => true
  | _ => false

mutual

def same : Json → Json → Bool
  | null, null => true
  | text s, text t => s == t
  | halfText cs, halfText ds => cs == ds
  | list xs, list ys => sameItems xs ys
  | object fs, object gs => fs.length == gs.length && sameFields fs gs
  | float .nan, float .nan => true
  | x, y => match x.ratio?, y.ratio? with
    | some p, some q => !ratioLess p q && !ratioLess q p
    | _, _ => false

def sameItems : List Json → List Json → Bool
  | [], [] => true
  | x :: xs, y :: ys => same x y && sameItems xs ys
  | _, _ => false

def sameFields : List (String × Json) → List (String × Json) → Bool
  | [], _ => true
  | (k, v) :: rest, gs =>
    (match List.lookup k gs with
      | some w => same v w
      | none => false) && sameFields rest gs

end

mutual

def less? : Json → Json → Option Bool
  | list xs, list ys => lessItems? xs ys
  | x, y => match x.codes?, y.codes? with
    | some cs, some ds => some (cs < ds)
    | _, _ => if x.isNumeric && y.isNumeric then
        some (match x.ratio?, y.ratio? with
          | some p, some q => ratioLess p q
          | _, _ => false)
      else none

def lessItems? : List Json → List Json → Option Bool
  | [], ys => some (!ys.isEmpty)
  | _ :: _, [] => some false
  | x :: xs, y :: ys => if same x y then lessItems? xs ys else less? x y

end

def allComparable : List Json → Bool
  | [] => true
  | x :: xs => xs.all (fun y => (less? x y).isSome) && allComparable xs

/-- Stable ascending sort; `none` when two values have no order. -/
def sort? (xs : List Json) : Option (List Json) :=
  if allComparable xs then some (xs.mergeSort fun x y => less? y x != some true) else none

end TeamVault.Json
