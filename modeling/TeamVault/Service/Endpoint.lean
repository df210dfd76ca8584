/-! The calls that the service knows, with their methods and paths. -/
namespace TeamVault

inductive Endpoint
  | register
  | login
  | currentUser
  | createOrganization
  | listOrganizations
  | getOrganization (organization : String)
  | inviteMember (organization : String)
  | createProject (organization : String)
  | listProjects
  | getProject (project : String)
  | grantAccess (project : String)
  | revokeAccess (project user : String)
  | projectMembers (project : String)
  | memberKeys (organization : String)
  | pushSecrets (project : String)
  | pullSecrets (project : String)
  | listVersions (project : String)
  | rollback (project : String)
  deriving DecidableEq

namespace Endpoint

def method : Endpoint → String
  | register | login | createOrganization | inviteMember _ | createProject _ | grantAccess _
  | pushSecrets _ | rollback _ => "POST"
  | revokeAccess .. => "DELETE"
  | _ => "GET"

/-- Names of organizations, projects and users stand in the path as they are. -/
def path : Endpoint → String
  | register => "/auth/register-enhanced"
  | login => "/auth/login"
  | currentUser => "/auth/me"
  | createOrganization | listOrganizations => "/organizations"
  | getOrganization o => "/organizations/" ++ o
  | inviteMember o => "/organizations/" ++ o ++ "/invites"
  | createProject o => "/organizations/" ++ o ++ "/projects"
  | listProjects => "/projects"
  | getProject p => "/projects/" ++ p
  | grantAccess p => "/projects/" ++ p ++ "/access"
  | revokeAccess p u => "/projects/" ++ p ++ "/access/" ++ u
  | projectMembers p => "/projects/" ++ p ++ "/members"
  | memberKeys o => "/organizations/" ++ o ++ "/members/keys"
  | pushSecrets p | pullSecrets p => "/projects/" ++ p ++ "/secrets"
  | listVersions p => "/projects/" ++ p ++ "/secrets/versions"
  | rollback p => "/projects/" ++ p ++ "/secrets/rollback"

end Endpoint

end TeamVault
