import TeamVault.World
import TeamVault.Local.Session
import TeamVault.Local.Settings
import TeamVault.Service.Endpoint
import TeamVault.Service.Payload
import TeamVault.Team.Account

/-!
Calls of the service. Each call sends one request, and every answer that is not a success becomes a
fault of the taxonomy.
-/
namespace TeamVault

structure Client where
  baseUrl : String
  token : Option String
  timeout : Binary64

namespace Client

def make (url : String) (token : Option String) (timeout : Binary64) : Client :=
  ⟨String.ofList (Text.dropEndWhile (· == '/') url.toList), token, timeout⟩

def ofSettings (s : ClientSettings) (session : Option Session) : Client :=
  make s.apiUrl (session.map Session.accessToken) s.timeout

def pathStart : String := "/api/v1"

def url (c : Client) (path : String) : String := c.baseUrl ++ pathStart ++ path

def headers (c : Client) : List (String × String) :=
  ("Content-Type", "application/json") ::
    match c.token with
    | some t => if t = "" then [] else [("Authorization", "Bearer " ++ t)]
    | none => []

def noDetails : Json := .object []

/-- The fault for a status of 400 or more. Its text is the first of the answer's own words, the
reason and the status that says something. -/
def refusal (status : Int) (reason : String) (body : Bytes) : Fault :=
  let envelope := match Json.ofText? (Text.Utf8.decodeLenient body) with
    | some (.object fs) => fs
    | _ => []
  let words := match Json.Fields.present? envelope "error" with
    | some v => v.messageText
    | none => if reason = "" then "HTTP " ++ toString status else reason
  if status = 401 then .of .auth words
  else if status = 403 then .of .authz words
  else if status = 404 then .of .notFound words
  else .service words status (Json.Fields.presentOr envelope "code" (.text ""))
    (Json.Fields.presentOr envelope "details" noDetails)

def decode (method path : String) (status : Int) (reason : String) (body : Bytes) :
    Except Fault Json :=
  if 400 ≤ status then .error (refusal status reason body)
  else if status = 204 ∨ body = [] then .ok .null
  else match Json.ofText? (Text.Utf8.decodeLenient body) with
    | some v => .ok v
    | none =>
      let f := Fault.service ("Invalid JSON in response to " ++ method ++ " " ++ path) status
        (.text "invalid_response") noDetails
      .error { f with cause := some .notJson }

def reading (c : Client) (method path : String) : Reply → Except Fault Json
  | .failed text => .error (.service ("Request to " ++ c.url path ++ " failed: " ++ text) 0
      (.text "network_error") noDetails)
  | .answered status reason body => decode method path status reason body

def message (c : Client) (method path : String) (body params : Option Json) : Request :=
  ⟨method, c.url path, c.headers, body, params, c.timeout⟩

def request (c : Client) (method path : String) (body params : Option Json) : Action Json := do
  Action.ofExcept (c.reading method path (← Action.send (c.message method path body params)))

def call (c : Client) (e : Endpoint) (body : Option Json := none) (params : Option Json := none) :
    Action Json :=
  c.request e.method e.path body params

def misunderstood (what : String) (cause : Cause) : Fault :=
  .because (.service 0 (.text "invalid_response") noDetails)
    ("Unexpected " ++ what ++ " response from the envv service: ") cause

def understand {α : Type} (what : String) (p : Payload α) : Action α :=
  Action.ofExcept (p.mapError (misunderstood what))

def filled (required : Json.Fields) (optional : List (String × String)) : Json :=
  .object (required ++ (optional.filter (·.2 ≠ "")).map fun (k, v) => (k, .text v))

def authResult (v : Json) : Payload (Session × User) := do
  let fs ← Payload.fields v
  let told ← Payload.fields (← Payload.get fs "user")
  let user ← Payload.ofChecked (User.ofFields told)
  let token ← Payload.get fs "access_token"
  -- The session takes the texts of the user as they were told, with any halves of pairs in them.
  let session ← Payload.ofChecked (Session.ofFields
    [("access_token", token), ("user_id", Payload.getOrNull told "id"),
      ("email", Payload.getOrNull told "email"),
      ("expires_at", Json.Fields.presentOr fs "expires_at" .null)])
  return (session, user)

def register (c : Client) (email password name publicKey : String) : Action (Session × User) := do
  understand "authentication" (authResult (← c.call .register (some (.object
    [("email", .text email), ("password", .text password), ("name", .text name),
      ("age_public_key", .text publicKey)]))))

def login (c : Client) (email password : String) : Action (Session × User) := do
  understand "authentication" (authResult (← c.call .login (some (.object
    [("email", .text email), ("password", .text password)]))))

def currentUser (c : Client) : Action User := do
  let v ← c.call .currentUser
  understand "user" (do
    let fs ← Payload.fields v
    Payload.record User.ofFields (Json.Fields.presentOr fs "user" v))

def createOrganization (c : Client) (name description : String) : Action Organization := do
  understand "organization" (Payload.record Organization.ofFields
    (← c.call .createOrganization
      (some (filled [("name", .text name)] [("description", description)]))))

def listOrganizations (c : Client) : Action (List Organization) := do
  understand "organization list" (Payload.records Organization.ofFields
    (← c.call .listOrganizations))

def getOrganization (c : Client) (id : String) : Action Organization := do
  understand "organization" (Payload.record Organization.ofFields
    (← c.call (.getOrganization id)))

def inviteMember (c : Client) (organization email role : String) : Action Unit := do
  let _ ← c.call (.inviteMember organization)
    (some (.object [("email", .text email), ("role", .text role)]))

def createProject (c : Client) (organization name slug description : String) : Action Project := do
  understand "project" (Payload.record Project.ofFields
    (← c.call (.createProject organization) (some (filled [("name", .text name)]
      [("slug", slug), ("description", description)]))))

def listProjects (c : Client) (organization : String) : Action (List Project) := do
  understand "project list" (Payload.records Project.ofFields
    (← c.call .listProjects none (some (.object [("organization_id", .text organization)]))))

def getProject (c : Client) (id : String) : Action Project := do
  understand "project" (Payload.record Project.ofFields (← c.call (.getProject id)))

def grantAccess (c : Client) (project email permission : String) : Action Unit := do
  let _ ← c.call (.grantAccess project)
    (some (.object [("email", .text email), ("permission", .text permission)]))

def revokeAccess (c : Client) (project user : String) : Action Unit := do
  let _ ← c.call (.revokeAccess project user)

end Client

end TeamVault
