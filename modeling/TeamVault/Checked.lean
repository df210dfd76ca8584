/-!
Values checked field by field. A record that does not fit is told with every field that is at
fault, in the order of its fields.
-/
namespace TeamVault

inductive Place
  | key (name : String)
  | index (position : Nat)
  deriving DecidableEq

inductive Misfit
  | missing
  | notText
  | textUndecodable
  | notMember
  | notInteger
  | integerUnreadable
  | integerTooLong
  | integerFractional
  | integerNotFinite
  | belowLeast
  | notAbove
  | notNumber
  | numberUnreadable
  | notTruth
  | truthUnreadable
  | notList
  | notObject
  | notBytes
  | notPath
  | tooShort
  | notRecord
  | notTimestamp
  deriving DecidableEq

structure FieldError where
  place : List Place
  misfit : Misfit
  deriving DecidableEq

def FieldError.under (p : Place) (e : FieldError) : FieldError := { e with place := p :: e.place }

inductive Checked (α : Type)
  | fits (value : α)
  | fails (errors : List FieldError)

namespace Checked

variable {α β : Type}

def reject (m : Misfit) : Checked α := .fails [⟨[], m⟩]

def map (f : α → β) : Checked α → Checked β
  | fits a => fits (f a)
  | fails errors => fails errors

/-- Both sides are checked whether or not the first one fits. -/
def both (f : Checked (α → β)) (x : Checked α) : Checked β :=
  match f, x with
  | fits f, fits a => fits (f a)
  | fits _, fails errors => fails errors
  | fails errors, fits _ => fails errors
  | fails errors, fails more => fails (errors ++ more)

instance : Applicative Checked where
  pure := fits
  map := map
  seq f x := both f (x ())

def andThen (x : Checked α) (f : α → Checked β) : Checked β :=
  match x with
  | fits a => f a
  | fails errors => fails errors

def under (p : Place) : Checked α → Checked α
  | fits a => fits a
  | fails errors => fails (errors.map (.under p))

def toExcept : Checked α → Except (List FieldError) α
  | fits a => .ok a
  | fails errors => .error errors

def items (check : β → Checked α) (position : Nat) : List β → Checked (List α)
  | [] => fits []
  | b :: rest => both (map List.cons (under (.index position) (check b)))
      (items check (position + 1) rest)

end Checked

end TeamVault
