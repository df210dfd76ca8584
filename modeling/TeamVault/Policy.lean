import TeamVault.Team.Recipient
import TeamVault.Fault
import TeamVault.Yaml.Writer

/-!
Encryption policies: which keys files are encrypted for. Keys are distinct and sorted, so that the
rendered policy changes only where the team does.
-/
namespace TeamVault

structure PolicyRule where
  pathRegex : String
  recipients : List String
  nonempty : recipients ≠ []

namespace PolicyRule

def ofFields (fields : Json.Fields) : Checked PolicyRule :=
  (fun pathRegex recipients => ⟨pathRegex, recipients.1, recipients.2⟩)
    <$> Checked.required fields "path_regex" Checked.text
    <*> Checked.required fields "recipients" (Checked.nonempty Checked.text)

def ofJson : Json → Checked PolicyRule
  | .object fields => ofFields fields
  | _ => Checked.reject .notRecord

end PolicyRule

structure Policy where
  rules : List PolicyRule
  nonempty : rules ≠ []

namespace Policy

def ofFields (fields : Json.Fields) : Checked Policy :=
  (fun rules => ⟨rules.1, rules.2⟩)
    <$> Checked.required fields "rules" (Checked.nonempty PolicyRule.ofJson)

def recipientKeys (p : Policy) : List String :=
  (p.rules.flatMap PolicyRule.recipients).eraseDups.mergeSort (· ≤ ·)

def joinKeys (keys : List String) : String := ",".intercalate keys

def entries (p : Policy) : List (String × String) :=
  p.rules.map fun r => (r.pathRegex, joinKeys r.recipients)

def document (p : Policy) : List (String × Yaml.Block) :=
  [("creation_rules", .sequence (p.entries.map fun (pattern, keys) =>
    .mapping [("path_regex", .text pattern), ("age", .text keys)]))]

def render (p : Policy) : String := Yaml.Block.render p.document

def anyPath : String := ".*"

/-- One rule for the keys of a team. A team without keys has no policy, since nobody could ever
read what is encrypted under it. -/
def build (recipients : List Recipient) (pathRegex : String := anyPath) : Except Fault Policy :=
  let keys := Recipient.keys recipients
  if h : keys = [] then
    .error (.of .noRecipients (
      if recipients.isEmpty then "The project has no members."
      else "None of the " ++ toString recipients.length ++
        " project member(s) has a public key."))
  else .ok ⟨[⟨pathRegex, keys, h⟩], by simp⟩

end Policy

end TeamVault
