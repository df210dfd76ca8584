import TeamVault.Secret.Environment
import TeamVault.Checked.Field
import TeamVault.Yaml.Writer

/-! The project that a working directory belongs to. -/
namespace TeamVault

structure ProjectBinding where
  organizationId : String
  organizationName : String
  projectId : String
  projectName : String
  defaultEnvironment : Environment
  deriving DecidableEq

namespace ProjectBinding

def ofFields (fields : Json.Fields) : Checked ProjectBinding :=
  ProjectBinding.mk
    <$> Checked.required fields "organization_id" Checked.text
    <*> Checked.withDefault fields "organization_name" "" Checked.text
    <*> Checked.required fields "project_id" Checked.text
    <*> Checked.withDefault fields "project_name" "" Checked.text
    <*> Checked.withDefault fields "default_environment" .development
      (Checked.member Environment.ofName?)

def entries (b : ProjectBinding) : List (String × String) :=
  [("default_environment", b.defaultEnvironment.name), ("organization_id", b.organizationId),
    ("organization_name", b.organizationName), ("project_id", b.projectId),
    ("project_name", b.projectName)]

def storedText (b : ProjectBinding) : String :=
  Yaml.Block.render (b.entries.map fun (k, v) => (k, .text v))

end ProjectBinding

end TeamVault
