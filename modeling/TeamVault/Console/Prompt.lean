import TeamVault.World
import TeamVault.Text.Lines

/-!
Questions on the terminal. An empty answer is asked for again; a hidden answer is not shown; at the
end of the input there is no answer.
-/
namespace TeamVault.Console

structure Question where
  text : String
  hidden : Bool := false
  repeated : Bool := false

def typedLines (s : String) : List String :=
  let lines := Text.feedLines (Text.unifyBreaks s)
  if lines.getLast? = some "" then lines.dropLast else lines

def askLines (text : String) (hidden : Bool) (printed : String) :
    List String → Option String × List String × String
  | [] => (none, [], printed ++ text ++ ":" ++ (if hidden then " \n\n" else ""))
  | line :: rest =>
    let printed := printed ++ text ++ ": " ++ (if hidden then "" else line) ++ "\n"
    if line = "" then askLines text hidden printed rest else (some line, rest, printed)

def askOnce (text : String) (hidden : Bool) : Action (Option String) := fun _ w =>
  let (answer, typed, printed) := askLines text hidden w.printed w.typed
  (.ok answer, { w with typed := typed, printed := printed })

def repetition : String := "Repeat for confirmation"

def askTwice (text : String) (hidden : Bool) : Nat → Action (Option String)
  | 0 => return none
  | fuel + 1 => do
    match ← askOnce text hidden with
    | none => return none
    | some first => match ← askOnce repetition hidden with
      | none => return none
      | some second =>
        if first = second then return some first
        else
          Action.update fun w => { w with
            printed := w.printed ++ "Error: The two entered values do not match.\n" }
          askTwice text hidden fuel

def ask (q : Question) : Action (Option String) := do
  if q.repeated then askTwice q.text q.hidden ((← Action.world).typed.length + 1)
  else askOnce q.text q.hidden

end TeamVault.Console
