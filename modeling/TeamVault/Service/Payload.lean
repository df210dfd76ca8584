import TeamVault.Fault
import TeamVault.Json.Basic

/-!
Taking apart what the service answers. A required field that is absent, a value of the wrong type
and a record that does not fit each have their own cause.
-/
namespace TeamVault

abbrev Payload (α : Type) := Except Cause α

namespace Payload

variable {α : Type}

def fields : Json → Payload Json.Fields
  | .object fs => .ok fs
  | _ => .error .shape

def get (fs : Json.Fields) (key : String) : Payload Json :=
  match fs.get? key with
  | some v => .ok v
  | none => .error (.missingKey key)

def getOrNull (fs : Json.Fields) (key : String) : Json := (fs.get? key).getD .null

def ofChecked : Checked α → Payload α
  | .fits a => .ok a
  | .fails errors => .error (.fields errors)

def record (ofFields : Json.Fields → Checked α) (v : Json) : Payload α := do
  ofChecked (ofFields (← fields v))

/-- The records in a list; an answer that stands for nothing is the empty list. -/
def records (ofFields : Json.Fields → Checked α) (v : Json) : Payload (List α) :=
  match v.items? with
  | some items => items.mapM (record ofFields)
  | none => .error .shape

end Payload

end TeamVault
