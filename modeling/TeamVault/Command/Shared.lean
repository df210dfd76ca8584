import TeamVault.Command.Basic
import TeamVault.Console.ShortKey
import TeamVault.Secrets

/-! What several commands have in common. -/
namespace TeamVault.Command

def homeOption : ValueOption := option "home" (.value Local.usualHome.toText)

def homePath (v : Values) : Action Path := Action.expandHome (.ofText (v.text "home"))

def client (v : Values) : Action Client := do
  let home ← homePath v
  let settings ← SettingsFile.load (some home)
  let session ← Credentials.load (some home)
  return .ofSettings settings (some session)

def secrets (v : Values) : Action Secrets := do
  Secrets.ofContext (← Context.load (some (← homePath v)) none)

def environmentNames : List String := Environment.all.map Environment.name

def nameOrDash (s : Option String) : String := s.getD "-"

def filled? (s : Option String) : Option String := s.filter (· ≠ "")

end TeamVault.Command
