import TeamVault.Service.Client
import TeamVault.Secret.Version

/-!
The service's store of versions. A push makes a new version with the number that the service
answers; a rollback is a push of older content.
-/
namespace TeamVault.VersionStore

/-- A version as an answer describes it; what is known before the answer is given by the caller. -/
def version (project : String) (fs : Json.Fields) (environment : Json)
    (format : Checked (Option SecretFormat)) (ciphertext : Bytes) (metadata : Checked Json.Fields)
    (size : Int) : Payload SecretVersion := do
  let id ← Payload.get fs "version_id"
  let number ← Payload.get fs "version"
  Payload.ofChecked (SecretVersion.mk
    <$> Checked.under (.key "version_id") (Checked.text id)
    <*> pure project
    <*> Checked.under (.key "environment")
      (Checked.member Environment.ofName? environment)
    <*> Checked.under (.key "version") (VersionNumber.check number)
    <*> Checked.under (.key "format") format
    <*> pure ciphertext
    <*> Checked.under (.key "metadata") metadata
    <*> Checked.under (.key "size_bytes")
      (Checked.integer (Json.Fields.presentOr fs "size_bytes" (.int size)))
    <*> Checked.under (.key "created_by")
      (Checked.nullable Checked.text (Payload.getOrNull fs "created_by"))
    <*> Checked.under (.key "created_at")
      (Checked.nullable Checked.timestamp (Json.Fields.presentOr fs "created_at" .null)))

def fieldsOrNone (v : Json) : Payload Json.Fields :=
  if v.isPresent then Payload.fields v else .ok []

def pushed (project : String) (environment : Environment) (ciphertext : Bytes)
    (format : SecretFormat) (metadata : Json.Fields) (v : Json) : Payload SecretVersion := do
  let fs ← fieldsOrNone v
  version project fs (Json.Fields.presentOr fs "environment" (.text environment.name))
    (pure (some format)) ciphertext (pure metadata) ciphertext.length

def parcel (environment : Environment) (text : String) (format : SecretFormat)
    (metadata : Json.Fields) : Json.Fields :=
  [("encrypted_data", .text text), ("format", .text format.name),
    ("environment", .text environment.name), ("metadata", .object metadata)]

def push (c : Client) (project : String) (environment : Environment) (ciphertext : Bytes)
    (format : SecretFormat) (metadata : Json.Fields) : Action SecretVersion := do
  match Text.Utf8.decode? ciphertext with
  | none => Action.crash .undecodable
  | some text =>
    let v ← c.call (.pushSecrets project) (some (.object (parcel environment text format metadata)))
    Client.understand "push" (pushed project environment ciphertext format metadata v)

def inEnvironment (e : Environment) : Option Json :=
  some (.object [("environment", .text e.name)])

/-- An answer that holds no version: nothing, or an object without ciphertext. -/
def holdsNothing (v : Json) : Bool :=
  !v.isPresent || match v with
    | .object fs => (Json.Fields.present? fs "encrypted_data").isNone
    | _ => false

inductive Pulled
  | understood (version : SecretVersion)
  | misunderstood (cause : Cause)
  | unwritable

def pulled (project : String) (environment : Environment) (v : Json) : Pulled :=
  match (do
    let fs ← Payload.fields v
    return (fs, ← Payload.get fs "encrypted_data")) with
  | .error cause => .misunderstood cause
  | .ok (_, .halfText _) => .unwritable
  | .ok (fs, .text text) =>
    let ciphertext := Text.Utf8.encode text
    match version project fs (Json.Fields.presentOr fs "environment" (.text environment.name))
      (Checked.nullable (Checked.member SecretFormat.ofName?)
        (Json.Fields.presentOr fs "format" (.text SecretFormat.dotenv.name)))
      ciphertext
      (Checked.object (Json.Fields.presentOr fs "metadata"
        (Json.Fields.presentOr fs "sops_metadata" (.object []))))
      ciphertext.length with
    | .ok version => .understood version
    | .error cause => .misunderstood cause
  | .ok _ => .misunderstood .shape

def latest (project : String) (environment : Environment) (v : Json) :
    Except Failure SecretVersion :=
  if holdsNothing v then
    .error (.fault (.of .notFound
      ("No secrets found for " ++ environment.name ++ " in project " ++ project)))
  else match pulled project environment v with
    | .understood version => .ok version
    | .misunderstood cause => .error (.fault (Client.misunderstood "secret version" cause))
    | .unwritable => .error (.crash .undecodable)

def pull (c : Client) (project : String) (environment : Environment) : Action SecretVersion := do
  Action.ofResult (latest project environment
    (← c.call (.pullSecrets project) none (inEnvironment environment)))

def history (v : Json) : Payload (List VersionInfo) :=
  Payload.records VersionInfo.ofFields (match v with
    | .object fs => Json.Fields.presentOr fs "versions" (.list [])
    | v => v)

def versions (c : Client) (project : String) (environment : Environment) :
    Action (List VersionInfo) := do
  let v ← c.call (.listVersions project) none (inEnvironment environment)
  return VersionInfo.newestFirst (← Client.understand "version list" (history v))

/-- The format stays unknown where the answer does not tell it. -/
def rolledBack (project : String) (v : Json) : Payload SecretVersion := do
  let fs ← fieldsOrNone v
  let _ ← Payload.get fs "version_id"
  let environment ← Payload.get fs "environment"
  version project fs environment
    (Checked.nullable (Checked.member SecretFormat.ofName?)
      (Json.Fields.presentOr fs "format" .null))
    [] (pure []) 0

def rollback (c : Client) (project versionId : String) : Action SecretVersion := do
  let v ← c.call (.rollback project) (some (.object [("version_id", .text versionId)]))
  Client.understand "rollback" (rolledBack project v)

end TeamVault.VersionStore
