import TeamVault.Service.Client
import TeamVault.Team.Recipient

/-! Who may currently receive secrets, as the service lists them. -/
namespace TeamVault.Roster

def decode (v : Json) : Payload (List Recipient) := do
  let fs ← if v.isPresent then Payload.fields v else .ok []
  let rs ← Payload.records Recipient.ofFields (Json.Fields.presentOr fs "members" (.list []))
  return Recipient.firstPerMember rs

def ofProject (c : Client) (project : String) : Action (List Recipient) := do
  Client.understand "member list" (decode (← c.call (.projectMembers project)))

def ofOrganization (c : Client) (organization : String) : Action (List Recipient) := do
  let v ← c.call (.memberKeys organization)
  Client.understand "member key list" (do
    return Recipient.firstPerMember (← Payload.records Recipient.ofFields v))

end TeamVault.Roster
