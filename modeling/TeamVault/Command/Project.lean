import TeamVault.Command.Shared

/-! Projects: create, list, bind a directory, members, and access. -/
namespace TeamVault.Command.Project

open Console (print printTable printPanel)

def create : Command where
  name := "create"
  parameters := { options := [homeOption, option "org-id" .required,
    option "name" (.ask { text := "Name" }), option "slug" (.value ""),
    option "description" (.value "")] }
  run v := do
    let created ← (← client v).createProject (v.text "org-id") (v.text "name") (v.text "slug")
      (v.text "description")
    print ("\n  [green]Project created:[/] [bold]" ++ created.name ++ "[/]")
    print ("  ID: [cyan]" ++ created.id ++ "[/]\n")

def row (p : TeamVault.Project) : List String :=
  [p.id, p.name, p.slug, if p.needsReencryption then "[yellow]needed[/]" else "[dim]-[/]"]

def list : Command where
  name := "list"
  parameters := { options := [homeOption, option "org-id" .required] }
  run v := do
    let all ← (← client v).listProjects (v.text "org-id")
    if all.isEmpty then print "\n  [dim]No projects yet.[/]\n"
    else printTable "Projects" ["ID", "Name", "Slug", "Re-encrypt"] (all.map row)

def init : Command where
  name := "init"
  parameters := { options := [homeOption, option "org-id" (.ask { text := "Organization ID" }),
    option "project-id" (.ask { text := "Project ID" }),
    option "default-env" (.value "development") (some environmentNames)] }
  run v := do
    if ← BindingFile.isThere none then
      Action.raise (BindingFile.alreadyThere (← BindingFile.path none))
    let c ← client v
    let remote ← c.getProject (v.text "project-id")
    let organization ← c.getOrganization (v.text "org-id")
    let environment := v.text "default-env"
    let path ← BindingFile.save
      { organizationId := v.text "org-id"
        organizationName := organization.name
        projectId := v.text "project-id"
        projectName := remote.name
        defaultEnvironment := (Environment.ofName? environment).getD .development } none
    print "\n  [green]Project initialized.[/]\n"
    print ("  Organization: " ++ organization.name ++ " (" ++ v.text "org-id" ++ ")")
    print ("  Project:      " ++ remote.name ++ " (" ++ v.text "project-id" ++ ")")
    print ("  Default Env:  " ++ environment)
    print ("  Config:       [dim]" ++ path.toText ++ "[/]")
    print ("\n  Next: [cyan]envv secrets push .env." ++ environment ++ "[/]\n")

def status : Command where
  name := "status"
  parameters := {}
  run _ := do
    let b ← BindingFile.load none
    print ""
    printPanel "envv project"
      ("Organization: [bold]" ++ b.organizationName ++ "[/] (" ++ b.organizationId ++ ")\n" ++
        "Project: [bold]" ++ b.projectName ++ "[/] (" ++ b.projectId ++ ")\n" ++
        "Default Env: [cyan]" ++ b.defaultEnvironment.name ++ "[/]\n" ++
        "Config: [dim]" ++ (← BindingFile.path none).toText ++ "[/]")
    print ""

def memberRow (r : Recipient) : List String :=
  [r.identity, r.name.getD "", nameOrDash (r.permission.map Permission.name),
    Console.shortKey (r.publicKey.getD "") Console.shortKeyWidth]

def keyless (rs : List Recipient) : List Recipient := rs.filter fun r => !r.hasKey

def projectOr (given : Option String) : Action String :=
  match given with
  | some p => pure p
  | none => do return (← BindingFile.load none).projectId

def members : Command where
  name := "members"
  parameters := { options := [homeOption, option "project-id" .absent] }
  run v := do
    let project ← projectOr (filled? (v.text? "project-id"))
    let all ← Roster.ofProject (← client v) project
    if all.isEmpty then print "\n  [dim]No members found.[/]\n"
    else
      printTable ("Project Members (" ++ toString all.length ++ ")")
        ["Email", "Name", "Permission", "Age Public Key"] (all.map memberRow)
      if (keyless all).length ≠ 0 then
        print ("  [yellow]" ++ toString (keyless all).length ++
          " member(s) have no public key yet and cannot decrypt.[/]\n")

def grant : Command where
  name := "grant"
  parameters := { options := [homeOption, option "email" .required,
    option "permission" (.value Permission.read.name)
      (some (Permission.all.map Permission.name))] }
  run v := do
    let b ← BindingFile.load none
    (← client v).grantAccess b.projectId (v.text "email") (v.text "permission")
    print ("\n  [green]Granted[/] " ++ v.text "permission" ++ " to " ++ v.text "email")
    print "  Run [cyan]envv secrets rotate[/] so they can decrypt.\n"

def revoke : Command where
  name := "revoke"
  parameters := { options := [homeOption], arguments := ["user_id"] }
  run v := do
    let b ← BindingFile.load none
    (← client v).revokeAccess b.projectId (v.text "user_id")
    print ("\n  [green]Revoked[/] access for " ++ v.text "user_id")
    print "  Run [cyan]envv secrets rotate[/] to re-encrypt without them.\n"

def commands : List Command := [create, list, init, status, members, grant, revoke]

end TeamVault.Command.Project
