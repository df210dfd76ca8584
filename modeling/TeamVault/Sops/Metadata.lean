import TeamVault.Fault
import TeamVault.Json.Encoding
import TeamVault.Json.Order
import TeamVault.Text.LowerCase
import TeamVault.Text.Blank

/-!
What can be told from ciphertext and from the encryption tool's diagnostics without decrypting:
the metadata block, the recipients that it names, and why a decryption failed.
-/
namespace TeamVault.Sops

def metadataKey : String := "sops"

def metadata (ciphertext : Bytes) : Except Fault Json.Fields :=
  match Json.ofBytes? ciphertext with
  | none => .error (.because .metadataMissing "Ciphertext is not SOPS JSON: " .notJson)
  | some (.object fields) => match Json.Fields.get? fields metadataKey with
    | some (.object block) => .ok block
    | some _ => .error (.of .metadataMissing "Invalid sops metadata format.")
    | none => .error (.of .metadataMissing "No sops metadata found in encrypted data.")
  | some _ => .error (.of .metadataMissing "No sops metadata found in encrypted data.")

def recipients (block : Json.Fields) : Except Crash (List Json) :=
  match ((block.get? "age").getD .null).items? with
  | none => .error .shape
  | some entries =>
    match Json.sort? (entries.filterMap fun
      | Json.object fields => Json.Fields.present? fields "recipient"
      | _ => none) with
    | some sorted => .ok sorted
    | none => .error .shape

/-- Diagnostics that say that none of the caller's keys is among the recipients. -/
def permissionMarks : List String :=
  ["no valid decryption key", "failed to get the data key",
    "no identity matched any of the recipients", "no age identity found"]

def occursIn (part : List Char) : List Char → Bool
  | [] => part.isEmpty
  | c :: rest => part.isPrefixOf (c :: rest) || occursIn part rest

def tellsPermission (diagnostics : String) : Bool :=
  permissionMarks.any fun m => occursIn m.toList (Text.lowerCase diagnostics).toList

def decryptFault (diagnostics : String) : Fault :=
  if tellsPermission diagnostics then
    .of .permissionDenied "You don't have permission to decrypt these secrets."
  else .of .corruptCiphertext ("sops decryption failed: " ++ Text.trim diagnostics)

end TeamVault.Sops
