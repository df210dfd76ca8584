import TeamVault.Yaml.Node
import TeamVault.Json.Basic
import TeamVault.Number.Reader
import TeamVault.Time.Timestamp

/-!
Values of YAML documents. A mapping may take over the entries of others by the key `<<`; keys must
be values that can be compared.
-/
namespace TeamVault.Yaml

inductive Value
  | null
  | truth (value : Bool)
  | integer (value : Int)
  | float (value : Binary64)
  | text (value : String)
  | binary (value : Bytes)
  | moment
  | sequence (items : List Value)
  | set (members : List Value)
  | mapping (entries : List (Value × Value))
  deriving Inhabited

namespace Value

def canBeKey : Value → Bool
  | sequence _ | set _ | mapping _ => false
  | _ => true

def isPresent : Value → Bool
  | null => false
  | truth b => b
  | integer n => n != 0
  | float x => !x.isZero
  | text s => s != ""
  | binary bs => !bs.isEmpty
  | moment => true
  | sequence xs | set xs => !xs.isEmpty
  | mapping es => !es.isEmpty

end Value

namespace Node

/-! ### Scalars -/

def dropGrouping (s : String) : List Char := s.toList.filter (· != '_')

def digits? (base : Nat) (cs : List Char) : Option Nat :=
  if cs.isEmpty then none
  else cs.foldl (fun n? c => do
    let n ← n?
    let d ← Json.Reader.hexValue? c
    if d < base then some (base * n + d) else none) (some 0)

def wholeNumber? (cs : List Char) : Option Int :=
  let (negative, ds) := Number.splitSign (Text.trimChars cs)
  if ds.isEmpty || !ds.all Json.Reader.isDigit || Json.Reader.maxDigits < ds.length then none
  else some (if negative then -Json.Reader.natOfDigits ds else Json.Reader.natOfDigits ds)

def sixtieths (parts : List Int) : Int := parts.foldl (fun n p => 60 * n + p) 0

def integer? (s : String) : Option Int :=
  let (negative, cs) := Number.splitSign (dropGrouping s)
  let size? : Option Int := match cs with
    | ['0'] => some 0
    | '0' :: 'b' :: ds => (digits? 2 ds).map Int.ofNat
    | '0' :: 'x' :: ds => (digits? 16 ds).map Int.ofNat
    | '0' :: ds => (digits? 8 ds).map Int.ofNat
    | cs =>
      if cs.contains ':' then ((Text.cut (· == ':') cs).mapM wholeNumber?).map sixtieths
      else wholeNumber? cs
  size?.map fun n => if negative then -n else n

def plainFloat? (cs : List Char) : Option Binary64 := Number.plainNumber? (Text.trimChars cs)

def sumSixtieths (parts : List Binary64) : Binary64 :=
  (parts.reverse.foldl (fun (sum, base) p => (sum.add (p.mul (.ofInt base)), base * 60))
    (Binary64.zero false, (1 : Int))).1

def float? (s : String) : Option Binary64 :=
  let (negative, cs) := Number.splitSign ((dropGrouping s).map Char.toLower)
  let size? : Option Binary64 := match String.ofList cs with
    | ".inf" => some (.infinite false)
    | ".nan" => some .nan
    | _ =>
      if cs.contains ':' then ((Text.cut (· == ':') cs).mapM plainFloat?).map sumSixtieths
      else plainFloat? cs
  size?.map fun x => if negative then x.neg else x

def isTruthWord (s : String) : Option Bool :=
  if s.toLower ∈ ["yes", "true", "on"] then some true
  else if s.toLower ∈ ["no", "false", "off"] then some false
  else none

def sixBits? (c : Char) : Option Nat :=
  if 'A' ≤ c ∧ c ≤ 'Z' then some (c.toNat - 65)
  else if 'a' ≤ c ∧ c ≤ 'z' then some (c.toNat - 71)
  else if Json.Reader.isDigit c then some (c.toNat + 4)
  else if c = '+' then some 62
  else if c = '/' then some 63
  else none

def groupBytes : List Nat → Option Bytes
  | a :: b :: c :: d :: rest =>
    (groupBytes rest).map fun bs =>
      let n := ((a * 64 + b) * 64 + c) * 64 + d
      (n / 65536).toUInt8 :: (n / 256).toUInt8 :: n.toUInt8 :: bs
  | [a, b, c] =>
    let n := (a * 64 + b) * 64 + c
    some [(n / 1024).toUInt8, (n / 4).toUInt8]
  | [a, b] => some [((a * 64 + b) / 16).toUInt8]
  | [_] => none
  | [] => some []

def base64? (s : String) : Option Bytes :=
  if s.toList.any fun c => 0x80 ≤ c.toNat then none
  else
    let ds := (s.toList.takeWhile (· != '=')).filterMap sixBits?
    let padding := ((s.toList.dropWhile (· != '=')).filter (· == '=')).length
    if (4 - ds.length % 4) % 4 ≤ padding then groupBytes ds else none

/-! ### Nodes -/

def textOf : Node → Except Problem String
  | .scalar _ s => .ok s
  | .mapping _ entries => valueEntry entries
  | _ => .error .malformed
where
  valueEntry : List (Node × Node) → Except Problem String
    | [] => .error .malformed
    | (.scalar .value _, .scalar _ s) :: _ => .ok s
    | (.scalar .value _, _) :: _ => .error .malformed
    | _ :: rest => valueEntry rest

def orBad {α : Type} (p : Problem) : Option α → Except Problem α
  | some a => .ok a
  | none => .error p

def scalarValue (tag : Tag) (s : String) : Except Problem Value :=
  match tag with
  | .null => .ok .null
  | .truth => (orBad .badTruth (isTruthWord s)).map .truth
  | .integer => (orBad .badValue (integer? s)).map .integer
  | .float => (orBad .badValue (float? s)).map .float
  | .binary => (orBad .malformed (base64? s)).map .binary
  | .timestamp => do
    let m ← orBad .badTimestamp (Moment.ofChars? s.toList)
    if m.isValid then return .moment else .error .badValue
  | .text => .ok (.text s)
  | _ => .error .malformed

def isMerge : Node → Bool
  | .scalar .merge _ | .sequence .merge _ | .mapping .merge _ => true
  | _ => false

def asKey : Node → Node
  | .scalar .value s => .scalar .text s
  | n => n

mutual

/-- The entries of a mapping: first those that it takes over, then its own. -/
def flatten : Nat → List (Node × Node) → Except Problem (List (Node × Node))
  | 0, _ => .error .malformed
  | fuel + 1, entries => do
    let taken ← (entries.filter fun (k, _) => isMerge k).mapM fun (_, v) => merged fuel v
    let own := (entries.filter fun (k, _) => !isMerge k).map fun (k, v) => (asKey k, v)
    return taken.flatten ++ own

/-- The entries that the value of a merge key gives; of several mappings the first one wins. -/
def merged : Nat → Node → Except Problem (List (Node × Node))
  | 0, _ => .error .malformed
  | fuel + 1, n =>
    match n with
    | .mapping _ entries => flatten fuel entries
    | .enclosing => .ok []
    | .sequence _ items => do
      let parts ← items.mapM fun
        | .mapping _ entries => flatten fuel entries
        | .enclosing => .ok []
        | _ => .error .malformed
      return parts.reverse.flatten
    | .scalar .. => .error .malformed

end

def setEntry (k v : Value) : List (Value × Value) → List (Value × Value)
  | [] => [(k, v)]
  | (k', v') :: rest => match k, k' with
    | .text a, .text b => if a = b then (k', v) :: rest else (k', v') :: setEntry k v rest
    | _, _ => (k', v') :: setEntry k v rest

mutual

def value : Nat → Node → Except Problem Value
  | 0, _ => .error .malformed
  | fuel + 1, n =>
    match n with
    | .enclosing => .ok (.sequence [])
    | .scalar tag s => scalarValue tag s
    | .sequence tag items => match tag with
      | .sequence => do return .sequence (← items.mapM (value fuel))
      | .orderedMap | .pairs => do
        return .sequence (← items.mapM fun
          | .mapping _ [(k, v)] => do
            return .sequence [← value fuel k, ← value fuel v]
          | _ => .error .malformed)
      | _ => .error .malformed
    | .mapping tag entries => match tag with
      | .mapping => do return .mapping (← entriesValue fuel entries)
      | .set => do return .set ((← entriesValue fuel entries).map Prod.fst)
      | .null | .truth | .integer | .float | .binary | .timestamp | .text => do
        scalarValue tag (← textOf n)
      | _ => .error .malformed

def entriesValue : Nat → List (Node × Node) → Except Problem (List (Value × Value))
  | 0, _ => .error .malformed
  | fuel + 1, entries => do
    let flat ← flatten fuel entries
    flat.foldlM (fun done (k, v) => do
      let k ← value fuel k
      if k.canBeKey then return setEntry k (← value fuel v) done else .error .malformed) []

end

mutual

def depth : Node → Nat
  | .scalar .. | .enclosing => 1
  | .sequence _ items => depthItems items + 1
  | .mapping _ entries => depthEntries entries + 1

def depthItems : List Node → Nat
  | [] => 0
  | n :: rest => max (depth n) (depthItems rest)

def depthEntries : List (Node × Node) → Nat
  | [] => 0
  | (k, v) :: rest => max (max (depth k) (depth v)) (depthEntries rest)

end

def toValue (n : Node) : Except Problem Value := value (4 * depth n + 4) n

end Node

def isAllowed (c : Char) : Bool :=
  let n := c.toNat
  n == 9 || n == 10 || n == 13 || (0x20 ≤ n && n ≤ 0x7E) || n == 0x85 ||
    (0xA0 ≤ n && n ≤ 0xFFFD) || 0x10000 ≤ n

def Value.ofText (s : String) : Except Problem Value := do
  if s.toList.all isAllowed then
    let (tokens, problem) := Token.ofChars s.toList
    (← Node.ofTokens tokens problem).toValue
  else .error .malformed

namespace Value

/-- The value as JSON as far as fields of records can tell it: whatever is no text, number or truth
value is a list. Bytes are a text where they encode one and `asText` is set. -/
def toJson (asText : Bool) : Value → Json
  | null => .null
  | truth b => .bool b
  | integer n => .int n
  | float x => .float x
  | text s => .text s
  | binary bs => match Text.Utf8.decode? bs, asText with
    | some s, true => .text s
    | _, _ => .list []
  | _ => .list []

/-- The fields of a mapping whose keys are all texts; what stands for nothing has no fields. Bytes
count as text but for the fields in `notText`. -/
def fields? (notText : List String) (v : Value) : Option Json.Fields :=
  if !v.isPresent then some []
  else match v with
    | mapping entries => entries.mapM fun (k, v) =>
      match k with
      | text k => some (k, v.toJson (k ∉ notText))
      | _ => none
    | _ => none

def undecodableKeys : Value → List String
  | mapping entries => entries.filterMap fun
    | (text k, binary bs) => if (Text.Utf8.decode? bs).isNone then some k else none
    | _ => none
  | _ => []

end Value

end TeamVault.Yaml
