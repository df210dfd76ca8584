import TeamVault.Command.Parameters
import TeamVault.Console.Screen

/-!
Commands: their parameters and what they do with the values. Values are settled in the order in
which the options were given, then the arguments, then whatever was not given.
-/
namespace TeamVault

namespace Command

inductive Stop
  | usage
  | noAnswer

abbrev Values := List (String × Option String)

namespace Values

def text? (v : Values) (name : String) : Option String := (v.lookup name).join

def text (v : Values) (name : String) : String := (v.text? name).getD ""

end Values

end Command

structure Command where
  name : String
  parameters : Command.Parameters
  run : Command.Values → Action Unit

namespace Command

def settleGiven (o : ValueOption) (value : String) : Except Stop (String × Option String) :=
  match o.choices with
  | some names => if value ∈ names then .ok (o.name, some value) else .error .usage
  | none => .ok (o.name, some value)

def settleMissing (o : ValueOption) : Action (Except Stop (String × Option String)) :=
  match o.fallback with
  | .absent => return .ok (o.name, none)
  | .value s => return .ok (o.name, some s)
  | .required => return .error .usage
  | .ask q => do
    match ← Console.ask q with
    | some s => return .ok (o.name, some s)
    | none => return .error .noAnswer

def settleArguments : List String → List String → Except Stop Values
  | [], _ => .ok []
  | _ :: _, [] => .error .usage
  | name :: names, w :: words => (settleArguments names words).map ((name, some w) :: ·)

def settleAllMissing : List ValueOption → Action (Except Stop Values)
  | [] => return .ok []
  | o :: rest => do
    match ← settleMissing o with
    | .error s => return .error s
    | .ok v => return (← settleAllMissing rest).map (v :: ·)

/-- The last value of each option, in the order in which the options first appeared. -/
def lastValues (given : List (String × String)) : List (String × String) :=
  (given.map Prod.fst).eraseDups.filterMap fun name =>
    (given.reverse.lookup name).map fun v => (name, v)

def settle (p : Parameters) (given : Given) : Action (Except Stop Values) := do
  let options := lastValues given.options
  match options.mapM fun (name, v) => match p.option? name with
    | some o => settleGiven o v
    | none => .error .usage with
  | .error s => return .error s
  | .ok supplied => match settleArguments p.arguments given.words with
    | .error s => return .error s
    | .ok arguments =>
      let missing := p.options.filter fun o => (options.lookup o.name).isNone
      match ← settleAllMissing missing with
      | .error s => return .error s
      | .ok rest =>
        if given.words.length ≤ p.arguments.length then
          return .ok (supplied ++ arguments ++ rest)
        else return .error .usage

end Command

end TeamVault
