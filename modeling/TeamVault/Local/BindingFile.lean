import TeamVault.Local.Binding
import TeamVault.Local.SettingsFile

/-! The binding of a working directory. It is written once and never overwritten. -/
namespace TeamVault.BindingFile

def fileName : String := "config.yaml"

def path (directory : Option Path) : Action Path := do
  let here : Path := ⟨.root, (← Action.host).workDirectory⟩
  return ((directory.getD here).child Local.directoryName).child fileName

def isThere (directory : Option Path) : Action Bool := do Files.isThere (← path directory)

def load (directory : Option Path) : Action ProjectBinding := do
  let p ← path directory
  if ← Files.isThere p then
    match Yaml.record ["default_environment"] ProjectBinding.ofFields (← Files.readText p) with
    | .ok (.ok b) => return b
    | .ok (.error cause) =>
      Action.raise (.because .config ("Invalid project config " ++ p.toText ++ ": ") cause)
    | .error c => Action.crash c
  else
    Action.raise (.of .config "Not in an envv project."
      (some "Run 'envv project init' in this directory."))

def alreadyThere (p : Path) : Fault :=
  .of .config ("Project already initialized in this directory (" ++ p.toText ++ " exists).")

def save (b : ProjectBinding) (directory : Option Path) : Action Path := do
  let p ← path directory
  if ← Files.isThere p then Action.raise (alreadyThere p)
  else
    Files.makeDirectories p.parent
    Files.writeText p b.storedText
    return p

end TeamVault.BindingFile
