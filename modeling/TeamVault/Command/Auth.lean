import TeamVault.Command.Shared
import TeamVault.KeyFile

/-! Accounts: register, log in, log out, and who is logged in. -/
namespace TeamVault.Command.Auth

open Console (print printOpen)

def emailOption : ValueOption := option "email" (.ask { text := "Email" })

def apiOption : ValueOption := option "api-url" .absent

def openClient (v : Values) : Action Client := do
  let settings ← SettingsFile.load (some (← homePath v))
  let settings := match filled? (v.text? "api-url") with
    | some url => { settings with apiUrl := url }
    | none => settings
  return .ofSettings settings none

def register : Command where
  name := "register"
  parameters := { options := [homeOption, emailOption,
    option "password" (.ask { text := "Password", hidden := true, repeated := true }),
    option "name" (.ask { text := "Full name" }), apiOption] }
  run v := do
    let settings ← SettingsFile.load (some (← homePath v))
    printOpen "\n  Generating age encryption keypair..."
    let pair ← Keypair.generate
    print "[green]done[/]"
    print ("  Public key: [cyan]" ++ pair.publicKey ++ "[/]")
    let file ← KeyFile.save pair settings.keyFile
    print ("  [dim]Private key saved to " ++ file.toText ++ "[/]")
    printOpen "  Registering account..."
    let (session, user) ← (← openClient v).register (v.text "email") (v.text "password")
      (v.text "name") pair.publicKey
    let _ ← Credentials.save session (some (← homePath v))
    print "[green]done[/]"
    print ("\n  [green]Registered and logged in as[/] [bold]" ++ user.email ++ "[/]")
    print ("  User ID: " ++ user.id ++ "\n")

def login : Command where
  name := "login"
  parameters := { options := [homeOption, emailOption,
    option "password" (.ask { text := "Password", hidden := true }), apiOption] }
  run v := do
    let (session, user) ← (← openClient v).login (v.text "email") (v.text "password")
    let _ ← Credentials.save session (some (← homePath v))
    print ("\n  [green]Logged in as[/] [bold]" ++ user.email ++ "[/]")
    print ("  User ID: " ++ user.id ++ "\n")

def logout : Command where
  name := "logout"
  parameters := { options := [homeOption] }
  run v := do
    if ← Credentials.clear (some (← homePath v)) then print "\n  [green]Logged out.[/]\n"
    else print "\n  [dim]No active session.[/]\n"

def localKey? (file : Path) : Action (Option String) :=
  (do return some (← KeyFile.publicKey file) : Action (Option String)).recover fun f =>
    match f with
    | .fault g => match g.kind with
      | .config => pure none
      | _ => Action.fail f
    | .crash _ => Action.fail f

def keyWidth : Int := 64

def whoami : Command where
  name := "whoami"
  parameters := { options := [homeOption] }
  run v := do
    let user ← (← client v).currentUser
    print ""
    print ("  Email:          [bold]" ++ user.email ++ "[/]")
    print ("  Name:           " ++ user.name)
    print ("  User ID:        " ++ user.id)
    print ("  Age Public Key: " ++ Console.shortKey (user.publicKey.getD "") keyWidth)
    let file := (← SettingsFile.load (some (← homePath v))).keyFile
    match ← localKey? file with
    | none => print ("  [yellow]No local age key at " ++ (← Action.expandHome file).toText ++ "[/]")
    | some key =>
      if (filled? user.publicKey).any (· ≠ key) then
        print ("  [yellow]Local age key does not match the registered key; " ++
          "you will not be able to decrypt.[/]")
    print ""

def commands : List Command := [register, login, logout, whoami]

end TeamVault.Command.Auth
