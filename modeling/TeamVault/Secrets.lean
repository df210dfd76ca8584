import TeamVault.Local.Context
import TeamVault.Rotation
import TeamVault.Secret.Choice

/-! The secrets of one project: push, pull, sync, history, rollback and rotation. -/
namespace TeamVault

structure Secrets where
  binding : ProjectBinding
  client : Client
  tool : Sops.Tool

namespace Secrets

def ofContext (c : Context) : Action Secrets := do
  return ⟨c.binding, .ofSettings c.settings (some c.session),
    ← Sops.Tool.make c.settings.sopsBinary (some c.settings.keyFile) Sops.Tool.defaultTimeout⟩

def project (s : Secrets) : String := s.binding.projectId

def environment (s : Secrets) (given : Json) : Action Environment :=
  Action.ofExcept (Environment.choose given (some s.binding.defaultEnvironment))

def fileOr (given : Option String) (e : Environment) : Path :=
  match given with
  | some name => if name = "" then e.defaultFile else .ofText name
  | none => e.defaultFile

def fileMissing (p : Path) (rest : String) : Fault :=
  .of .usage ("file not found: " ++ p.toText ++ rest)

def pushFile (s : Secrets) (file : Path) (e : Environment) (f : SecretFormat) :
    Action SecretVersion := do
  if ← Files.isFile file then
    s.tool.checkInstalled
    let recipients ← Roster.ofProject s.client s.project
    let policy ← Action.ofExcept (Policy.build recipients)
    let (ciphertext, metadata) ← s.tool.encrypt file policy f
    VersionStore.push s.client s.project e ciphertext f metadata
  else Action.raise (fileMissing file "")

def push (s : Secrets) (file : Path) (environment format : Json) : Action SecretVersion := do
  let e ← s.environment environment
  let f ← Action.ofExcept (SecretFormat.choose format)
  s.pushFile file e f

structure Pulled where
  version : SecretVersion
  output : Path

def unpack (s : Secrets) (version : SecretVersion) (output : Path) : Action Unit := do
  let format ← Rotation.formatOf version
  let plaintext ← s.tool.decrypt version.ciphertext format
  Files.makeDirectories output.parent
  Files.writePrivate output plaintext

def pullTo (s : Secrets) (e : Environment) (output : Path) : Action Pulled := do
  s.tool.checkInstalled
  let version ← VersionStore.pull s.client s.project e
  s.unpack version output
  return ⟨version, output⟩

def pull (s : Secrets) (environment : Json) (output : Option String) : Action Pulled := do
  let e ← s.environment environment
  s.pullTo e (fileOr output e)

structure Synced where
  pulled : Option Pulled
  pushed : SecretVersion

def Synced.isFirst (s : Synced) : Bool := s.pulled.isNone

/-- Pulls the latest version if there is one. Only an environment without versions has none. -/
def pullIfAny (s : Secrets) (e : Environment) (file : Path) : Action (Option Pulled) :=
  (do return some (← s.pullTo e file) : Action (Option Pulled)).recover fun f =>
    if Rotation.isNotFound f then pure none else Action.fail f

def pushBack (s : Secrets) (e : Environment) (file : Path) (pulled : Option Pulled) :
    Action Synced := do
  if ← Files.isFile file then
    return ⟨pulled, ← s.pushFile file e ((pulled.bind (·.version.format)).getD .dotenv)⟩
  else Action.raise (fileMissing file ". Create it first.")

def sync (s : Secrets) (environment : Json) (file : Option String) : Action Synced := do
  let e ← s.environment environment
  s.pushBack e (fileOr file e) (← s.pullIfAny e (fileOr file e))

def versions (s : Secrets) (environment : Json) : Action (List VersionInfo) := do
  VersionStore.versions s.client s.project (← s.environment environment)

def rollback (s : Secrets) (versionId : String) : Action SecretVersion :=
  if versionId = "" then Action.raise (.of .usage "A version id is required.")
  else VersionStore.rollback s.client s.project versionId

def rotate (s : Secrets) (environment : Json) : Action Rotation := do
  let r ← Rotation.run s.client s.tool s.project (← s.environment environment)
  match r.failure with
  | some (_, f) => Action.fail f
  | none => return r

end Secrets

end TeamVault
