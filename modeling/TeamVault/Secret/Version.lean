import TeamVault.Secret.Environment
import TeamVault.Checked.Field

/-! Versions of a secret file: immutable ciphertext with its number, and entries of the history. -/
namespace TeamVault

abbrev VersionNumber := { n : Int // 1 ≤ n }

def VersionNumber.check (v : Json) : Checked VersionNumber :=
  Checked.andThen (Checked.integer v) fun n =>
    if h : 1 ≤ n then .fits ⟨n, h⟩ else Checked.reject .belowLeast

/-- The format is missing when the service does not tell it. -/
structure SecretVersion where
  versionId : String
  projectId : String
  environment : Environment
  version : VersionNumber
  format : Option SecretFormat
  ciphertext : Bytes
  metadata : Json.Fields
  sizeBytes : Int
  createdBy : Option String
  createdAt : Option Timestamp

def SecretVersion.ofFields (fields : Json.Fields) : Checked SecretVersion :=
  SecretVersion.mk
    <$> Checked.required fields "version_id" Checked.text
    <*> Checked.required fields "project_id" Checked.text
    <*> Checked.required fields "environment" (Checked.member Environment.ofName?)
    <*> Checked.required fields "version" VersionNumber.check
    <*> Checked.withDefault fields "format" (some .dotenv)
      (Checked.nullable (Checked.member SecretFormat.ofName?))
    <*> Checked.withDefault fields "ciphertext" [] Checked.bytes
    <*> Checked.withDefault fields "metadata" [] Checked.object
    <*> Checked.withDefault fields "size_bytes" 0 Checked.integer
    <*> Checked.withDefault fields "created_by" none (Checked.nullable Checked.text)
    <*> Checked.withDefault fields "created_at" none (Checked.nullable Checked.timestamp)

structure VersionInfo where
  versionId : String
  version : VersionNumber
  environment : Environment
  sizeBytes : Int
  createdBy : Option String
  createdAt : Option Timestamp
  deriving DecidableEq

namespace VersionInfo

def ofFields (fields : Json.Fields) : Checked VersionInfo :=
  VersionInfo.mk
    <$> Checked.required fields "version_id" Checked.text
    <*> Checked.required fields "version" VersionNumber.check
    <*> Checked.required fields "environment" (Checked.member Environment.ofName?)
    <*> Checked.withDefault fields (Checked.nameIn fields "size_bytes" "size") 0 Checked.integer
    <*> Checked.withDefault fields "created_by" none (Checked.nullable Checked.text)
    <*> Checked.withDefault fields "created_at" none (Checked.nullable Checked.timestamp)

/-- The newest version first; entries of one number keep their order. -/
def newestFirst (versions : List VersionInfo) : List VersionInfo :=
  versions.mergeSort fun a b => decide (b.version.1 ≤ a.version.1)

end VersionInfo

end TeamVault
