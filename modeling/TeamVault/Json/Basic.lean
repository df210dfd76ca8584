import TeamVault.Number.Binary64

/-!
JSON values. The fields of an object keep the order of first appearance, and a field set again
keeps its place. A text may hold half of a surrogate pair, which no encoding can write. Ciphertext
and sessions keep such texts as they are. All other records hold characters alone, with the
replacement character for each half, and so does what is sent or shown of a session. Two of these
texts may become one: what is proved of them is proved of texts without halves.
-/
namespace TeamVault

inductive Json
  | null
  | bool (value : Bool)
  | int (value : Int)
  | float (value : Binary64)
  | text (value : String)
  /-- Code points, at least one of which is half of a surrogate pair. -/
  | halfText (codes : List Nat)
  | list (items : List Json)
  | object (fields : List (String × Json))
  deriving Inhabited

abbrev Json.Fields := List (String × Json)

namespace Json

def isHalf (code : Nat) : Bool := 0xD800 ≤ code && code < 0xE000

/-- The text of code points, with the replacement character for the halves of pairs. -/
def shownText (codes : List Nat) : String :=
  String.ofList (codes.map fun n => if isHalf n then '\uFFFD' else Char.ofNat n)

/-- A text as it was told, of characters alone or with halves of surrogate pairs in it. -/
inductive Letters
  | whole (s : String)
  | halved (codes : List Nat)
  deriving DecidableEq

namespace Letters

def shown : Letters → String
  | whole s => s
  | halved codes => shownText codes

def isWhole : Letters → Bool
  | whole _ => true
  | halved _ => false

def toJson : Letters → Json
  | whole s => text s
  | halved codes => halfText codes

end Letters

def ofCodes (codes : List Nat) : Json :=
  if codes.any isHalf then halfText codes else text (shownText codes)

def letters? : Json → Option Letters
  | text s => some (.whole s)
  | halfText codes => some (.halved codes)
  | _ => none

def text? (v : Json) : Option String := v.letters?.map Letters.shown

def setField (key : String) (value : Json) : Fields → Fields
  | [] => [(key, value)]
  | (k, v) :: rest => if k = key then (k, value) :: rest else (k, v) :: setField key value rest

def Fields.ofMembers (members : Fields) : Fields :=
  members.foldl (fun fields (k, v) => setField k v fields) []

def Fields.get? (fields : Fields) (key : String) : Option Json := List.lookup key fields

def Fields.has (fields : Fields) (key : String) : Bool := (fields.get? key).isSome

/-- A value that stands for something: not null, false, zero or empty. -/
def isPresent : Json → Bool
  | null => false
  | bool b => b
  | int n => n != 0
  | float x => !x.isZero
  | text s => s != ""
  | halfText _ => true
  | list xs => !xs.isEmpty
  | object fields => !fields.isEmpty

def Fields.present? (fields : Fields) (key : String) : Option Json :=
  (fields.get? key).filter isPresent

def Fields.presentOr (fields : Fields) (key : String) (other : Json) : Json :=
  (fields.present? key).getD other

/-- The items that a value holds: those of a list, the characters of a text, the keys of an object;
a value that stands for nothing holds none. -/
def items? (v : Json) : Option (List Json) :=
  if !v.isPresent then some []
  else match v with
    | list xs => some xs
    | text s => some (s.toList.map fun c => text (String.singleton c))
    | halfText codes => some (codes.map fun n => ofCodes [n])
    | object fields => some (fields.map fun (k, _) => text k)
    | _ => none

end Json

end TeamVault
