import TeamVault.Team.Role
import TeamVault.Checked.Field

/-! Organizations, projects and users as the service tells them. -/
namespace TeamVault

structure Organization where
  id : String
  name : String
  slug : String
  role : Option MemberRole
  memberCount : Int
  createdAt : Option Timestamp
  deriving DecidableEq

def Organization.ofFields (fields : Json.Fields) : Checked Organization :=
  Organization.mk
    <$> Checked.required fields "id" Checked.text
    <*> Checked.required fields "name" Checked.text
    <*> Checked.withDefault fields "slug" "" Checked.text
    <*> Checked.withDefault fields "role" none
      (Checked.nullable (Checked.member MemberRole.ofName?))
    <*> Checked.withDefault fields "member_count" 0 Checked.integer
    <*> Checked.withDefault fields "created_at" none (Checked.nullable Checked.timestamp)

structure Project where
  id : String
  name : String
  slug : String
  organizationId : String
  needsReencryption : Bool
  createdAt : Option Timestamp
  deriving DecidableEq

def Project.ofFields (fields : Json.Fields) : Checked Project :=
  Project.mk
    <$> Checked.required fields "id" Checked.text
    <*> Checked.required fields "name" Checked.text
    <*> Checked.withDefault fields "slug" "" Checked.text
    <*> Checked.withDefault fields "organization_id" "" Checked.text
    <*> Checked.withDefault fields "needs_reencryption" false Checked.truth
    <*> Checked.withDefault fields "created_at" none (Checked.nullable Checked.timestamp)

structure User where
  id : String
  email : String
  name : String
  publicKey : Option String
  createdAt : Option Timestamp
  deriving DecidableEq

def User.ofFields (fields : Json.Fields) : Checked User :=
  User.mk
    <$> Checked.required fields "id" Checked.text
    <*> Checked.required fields "email" Checked.text
    <*> Checked.withDefault fields "name" "" Checked.text
    <*> Checked.withDefault fields "age_public_key" none (Checked.nullable Checked.text)
    <*> Checked.withDefault fields "created_at" none (Checked.nullable Checked.timestamp)

end TeamVault
