import TeamVault.Command.Shared

/-! Secrets: push, pull, sync, history, rollback and rotation. -/
namespace TeamVault.Command.Secrets

open Console (print printOpen printTable)

def environmentOption : ValueOption := option "env" .absent (some environmentNames)

def environment (v : Values) : Json := ((v.text? "env").map Json.text).getD .null

def push : Command where
  name := "push"
  parameters := { options := [homeOption, environmentOption,
    option "format" (.value SecretFormat.dotenv.name)
      (some (SecretFormat.all.map SecretFormat.name))], arguments := ["file"] }
  run v := do
    let s ← secrets v
    printOpen ("\n  Pushing secrets from [cyan]" ++ v.text "file" ++ "[/]...")
    let version ← s.push (.ofText (v.text "file")) (environment v) (.text (v.text "format"))
    print "[green]done[/]"
    print ("  Environment: " ++ version.environment.name)
    print ("  Version:     [bold]" ++ toString version.version.1 ++ "[/]")
    print ("  Size:        " ++ toString version.sizeBytes ++ " bytes\n")

def pull : Command where
  name := "pull"
  parameters := { options := [homeOption, environmentOption,
    option "output" .absent none (some 'o')] }
  run v := do
    let s ← secrets v
    printOpen "\n  Pulling secrets..."
    let pulled ← s.pull (environment v) (v.text? "output")
    print "[green]done[/]"
    print ("  Output:  [cyan]" ++ pulled.output.toText ++ "[/]")
    print ("  Version: [bold]" ++ toString pulled.version.version.1 ++ "[/]")
    if let some created := pulled.version.createdAt then
      print ("  Created: " ++ created.toText)
    print ""

def sync : Command where
  name := "sync"
  parameters := { options := [homeOption, environmentOption, option "file" .absent] }
  run v := do
    let synced ← (← secrets v).sync (environment v) (v.text? "file")
    match synced.pulled with
    | none => print "\n  [dim]No remote secrets found, created first version.[/]"
    | some pulled => print ("\n  Pulled version " ++ toString pulled.version.version.1)
    print ("  [green]Sync complete:[/] version [bold]" ++ toString synced.pushed.version.1 ++
      "[/]\n")

def row (i : VersionInfo) : List String :=
  [toString i.version.1, i.versionId, toString i.sizeBytes ++ " bytes",
    nameOrDash (i.createdAt.map Timestamp.toText), nameOrDash (filled? i.createdBy)]

def list : Command where
  name := "list"
  parameters := { options := [homeOption, environmentOption] }
  run v := do
    let all ← (← secrets v).versions (environment v)
    if all.isEmpty then print "\n  [dim]No versions found.[/]\n"
    else
      printTable ("Secret Versions (" ++ toString all.length ++ ")")
        ["Version", "ID", "Size", "Created", "Created By"] (all.map row)

def rollback : Command where
  name := "rollback"
  parameters := { options := [homeOption], arguments := ["version_id"] }
  run v := do
    let version ← (← secrets v).rollback (v.text "version_id")
    print ("\n  [green]Rolled back[/] " ++ version.environment.name ++ " to " ++
      v.text "version_id" ++ " as version [bold]" ++ toString version.version.1 ++ "[/]\n")

def rotate : Command where
  name := "rotate"
  parameters := { options := [homeOption, environmentOption] }
  run v := do
    let s ← secrets v
    printOpen "\n  Rotating encryption keys..."
    let r ← s.rotate (environment v)
    match r.previous, r.current with
    | some previous, some current =>
      print "[green]done[/]"
      print ("  Previous Version: " ++ toString previous.version.1)
      print ("  New Version:      [bold]" ++ toString current.version.1 ++ "[/]")
      print ("  Encrypted for:    " ++ toString r.recipientKeys.length ++ " key(s)\n")
    | _, _ => print "[yellow]nothing to rotate[/]\n"

def commands : List Command := [push, pull, sync, list, rollback, rotate]

end TeamVault.Command.Secrets
