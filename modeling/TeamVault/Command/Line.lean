import TeamVault.Command.Auth
import TeamVault.Command.Org
import TeamVault.Command.Project
import TeamVault.Command.Secrets

/-!
The command line. A fault of the taxonomy is printed with its hint and ends the program with code 1;
a command line that is used wrongly ends it with code 2.
-/
namespace TeamVault.Command

structure Ending where
  code : Int
  output : List String
  cause : Option Cause

def groups : List (String × List Command) :=
  [("auth", Auth.commands), ("org", Org.commands), ("project", Project.commands),
    ("secrets", Secrets.commands)]

def command? (group name : String) : Option Command :=
  (groups.lookup group).bind fun commands => commands.find? (·.name = name)

def topParameters : Parameters :=
  { flags := [⟨"verbose", some 'v'⟩, ⟨"version", none⟩], mixed := false }

def groupParameters : Parameters := { mixed := false }

def versionText : String := "envv, version 0.1.0"

def misused : Ending := ⟨2, [], none⟩

def report (f : Fault) : Action Unit := do
  Console.print ("\n[bold red]Error:[/] " ++ Console.escape f.message)
  if f.hint ≠ "" then Console.print ("  [dim]" ++ Console.escape f.hint ++ "[/]")
  Console.print ""

def ending (code : Int) (cause : Option Cause) : Action Ending := do
  return ⟨code, Console.lines (← Action.world).printed, cause⟩

def runSettled (c : Command) (v : Values) : Action Ending :=
  (do
    c.run v
    ending 0 none).recover fun f =>
      match f with
      | .fault g => do
        report g
        ending 1 g.cause
      | .crash _ => Action.fail f

def runCommand (c : Command) (line : List String) : Action Ending := do
  match c.parameters.given? line with
  | none => return misused
  | some given =>
    match ← settle c.parameters given with
    | .error .usage => return misused
    | .error .noAnswer => ending 1 none
    | .ok v => runSettled c v

def runLine (line : List String) : Action Ending := do
  match topParameters.given? line with
  | none => return misused
  | some given =>
    if "version" ∈ given.flags then
      Console.put (versionText ++ "\n")
      ending 0 none
    else match given.words with
      | [] => return misused
      | group :: rest => match (groups.lookup group).bind fun _ => groupParameters.given? rest with
        | none => return misused
        | some inner => match inner.words with
          | [] => return misused
          | name :: words => match command? group name with
            | some c => runCommand c words
            | none => return misused

end TeamVault.Command
