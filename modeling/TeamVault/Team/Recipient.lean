import TeamVault.Team.Role
import TeamVault.Checked.Field
import TeamVault.Text.Blank
import TeamVault.Text.LowerCase

/-!
Team members as recipients of secrets. A member without a public key is listed too, so that "nobody
has a key" can be told from "nobody is on the team". Main statement: of each identity one entry is
kept, whatever the letter case.
-/
namespace TeamVault

structure Recipient where
  identity : String
  publicKey : Option String
  userId : Option String
  name : Option String
  role : Option MemberRole
  permission : Option Permission
  deriving DecidableEq

namespace Recipient

def ofFields (fields : Json.Fields) : Checked Recipient :=
  Recipient.mk
    <$> Checked.required fields (Checked.nameIn fields "identity" "email") Checked.text
    <*> Checked.withDefault fields (Checked.nameIn fields "public_key" "age_public_key") none
      (Checked.nullable Checked.text)
    <*> Checked.withDefault fields "user_id" none (Checked.nullable Checked.text)
    <*> Checked.withDefault fields "name" none (Checked.nullable Checked.text)
    <*> Checked.withDefault fields "role" none
      (Checked.nullable (Checked.member MemberRole.ofName?))
    <*> Checked.withDefault fields "permission" none
      (Checked.nullable (Checked.member Permission.ofName?))

def key? (r : Recipient) : Option String :=
  r.publicKey.bind fun k => if Text.trim k = "" then none else some (Text.trim k)

def hasKey (r : Recipient) : Bool := r.key?.isSome

/-- Two entries of one identity belong to the same member. -/
def memberName (r : Recipient) : String := Text.lowerCase r.identity

def firstPerMemberAfter (seen : List String) : List Recipient → List Recipient
  | [] => []
  | r :: rest =>
    if r.memberName ∈ seen then firstPerMemberAfter seen rest
    else r :: firstPerMemberAfter (r.memberName :: seen) rest

def firstPerMember (rs : List Recipient) : List Recipient := firstPerMemberAfter [] rs

theorem memberName_not_mem_of_mem {seen : List String} {rs : List Recipient} {r : Recipient}
    (h : r ∈ firstPerMemberAfter seen rs) : r.memberName ∉ seen := by
  induction rs generalizing seen with
  | nil => simp [firstPerMemberAfter] at h
  | cons s rest ih =>
    rw [firstPerMemberAfter] at h
    split at h
    next => exact ih h
    next hs =>
      rcases List.mem_cons.1 h with rfl | h
      · exact hs
      · exact fun hm => ih h (List.mem_cons_of_mem _ hm)

theorem nodup_memberName (seen : List String) (rs : List Recipient) :
    ((firstPerMemberAfter seen rs).map memberName).Nodup := by
  induction rs generalizing seen with
  | nil => simp [firstPerMemberAfter]
  | cons s rest ih =>
    rw [firstPerMemberAfter]
    split
    next => exact ih seen
    next =>
      refine List.nodup_cons.2 ⟨fun h => ?_, ih _⟩
      obtain ⟨r, hr, he⟩ := List.mem_map.1 h
      exact memberName_not_mem_of_mem hr (he ▸ List.mem_cons_self)

def keys (rs : List Recipient) : List String :=
  ((rs.filterMap key?).eraseDups).mergeSort (· ≤ ·)

end Recipient

end TeamVault
