import TeamVault.Command.Shared

/-! Organizations: create, list, members, and invitations. -/
namespace TeamVault.Command.Org

open Console (print printTable)

def create : Command where
  name := "create"
  parameters := { options := [homeOption, option "name" (.ask { text := "Name" }),
    option "description" (.value "")] }
  run v := do
    let created ← (← client v).createOrganization (v.text "name") (v.text "description")
    print ("\n  [green]Organization created:[/] [bold]" ++ created.name ++ "[/]")
    print ("  ID: [cyan]" ++ created.id ++ "[/]\n")

def row (o : Organization) : List String :=
  [o.id, o.name, nameOrDash (o.role.map MemberRole.name), toString o.memberCount]

def list : Command where
  name := "list"
  parameters := { options := [homeOption] }
  run v := do
    let all ← (← client v).listOrganizations
    if all.isEmpty then print "\n  [dim]No organizations yet.[/]\n"
    else printTable "Organizations" ["ID", "Name", "Role", "Members"] (all.map row)

def memberRow (r : Recipient) : List String :=
  [r.identity, r.name.getD "", nameOrDash (r.role.map MemberRole.name),
    Console.shortKey (r.publicKey.getD "") Console.shortKeyWidth]

def members : Command where
  name := "members"
  parameters := { options := [homeOption], arguments := ["org_id"] }
  run v := do
    let all ← Roster.ofOrganization (← client v) (v.text "org_id")
    if all.isEmpty then print "\n  [dim]No members found.[/]\n"
    else
      printTable ("Members (" ++ toString all.length ++ ")")
        ["Email", "Name", "Role", "Age Public Key"] (all.map memberRow)

def invite : Command where
  name := "invite"
  parameters := { options := [homeOption, option "email" (.ask { text := "Email" }),
    option "role" (.value MemberRole.member.name)
      (some [MemberRole.admin.name, MemberRole.member.name])], arguments := ["org_id"] }
  run v := do
    (← client v).inviteMember (v.text "org_id") (v.text "email") (v.text "role")
    print ("\n  [green]Invited[/] " ++ v.text "email" ++ " as " ++ v.text "role" ++ "\n")

def commands : List Command := [create, list, members, invite]

end TeamVault.Command.Org
