import TeamVault.Policy
import TeamVault.Scratch
import TeamVault.Secret.Environment
import TeamVault.Sops.Metadata

/-!
Encrypting and decrypting with the external tool. Each run sees its input in a scratch directory
that is gone when the run is over. Ciphertext is JSON, so that its metadata can be read without
decrypting.
-/
namespace TeamVault

namespace Sops

structure Tool where
  program : String
  keyFile : Option Path
  timeout : Binary64

namespace Tool

def defaultTimeout : Binary64 := .ofInt 60

def make (program : String) (keyFile : Option Path) (timeout : Binary64) : Action Tool := do
  match keyFile with
  | none => return ⟨program, none, timeout⟩
  | some p => return ⟨program, some (← Action.expandHome p), timeout⟩

def source : String := "https://github.com/getsops/sops"

def checkInstalled (t : Tool) : Action Unit := do
  if (← Action.host).isInstalled t.program then return ()
  else Action.raise (.unavailable t.program source)

def finished (t : Tool) : Outcome → Except Fault (Int × Bytes × Bytes)
  | .missing => .error (.unavailable t.program source)
  | .timedOut => .error (.of .engine
      ("sops did not finish within " ++ t.timeout.toWholeText ++ "s"))
  | .exited code output diagnostics => .ok (code, output, diagnostics)

def command (t : Tool) (arguments : List String) (views : List FileView) : Run :=
  ⟨t.program, arguments, t.timeout, t.keyFile.map Path.toText, views⟩

def run (t : Tool) (arguments reads : List String) : Action (Int × Bytes × Bytes) := do
  Action.ofExcept (t.finished (← Action.execute (t.command arguments (← Files.views reads))))

def runWith (t : Tool) (start name : String) (data : Bytes)
    (arguments reads : String → List String) : Action (Int × Bytes × Bytes) :=
  Scratch.within start none fun scratch => do
    let file ← scratch.write name data
    t.run (arguments file.toText) (reads file.toText)

def diagnosticsText (bs : Bytes) : String := Text.Utf8.decodeLenient bs

def encryptArguments (format : SecretFormat) (plaintext config : String) : List String :=
  ["--config", config, "--encrypt", "--input-type", format.name, "--output-type", "json",
    plaintext]

def sealed : Int × Bytes × Bytes → Except Fault (Bytes × Json.Fields)
  | (code, ciphertext, diagnostics) =>
    if code ≠ 0 then
      .error (.of .engine ("sops encryption failed: " ++ Text.trim (diagnosticsText diagnostics)))
    else (metadata ciphertext).map fun block => (ciphertext, block)

def encrypt (t : Tool) (plaintext : Path) (policy : Policy) (format : SecretFormat) :
    Action (Bytes × Json.Fields) := do
  t.checkInstalled
  Action.ofExcept (sealed (← t.runWith "envv-policy-" ".sops.yaml"
    (Text.Utf8.encode policy.render) (encryptArguments format plaintext.toText)
    fun config => [config, plaintext.toText]))

def checkCiphertext (ciphertext : Bytes) : Except Fault Unit :=
  match Json.ofBytes? ciphertext with
  | none => .error (.because .corruptCiphertext "Ciphertext is not valid JSON: " .notJson)
  | some _ => (metadata ciphertext).map fun _ => ()

def decryptArguments (format : SecretFormat) (encrypted : String) : List String :=
  ["--decrypt", "--input-type", "json", "--output-type", format.name, encrypted]

def opened : Int × Bytes × Bytes → Except Fault Bytes
  | (code, plaintext, diagnostics) =>
    if code ≠ 0 then .error (decryptFault (diagnosticsText diagnostics)) else .ok plaintext

def decrypt (t : Tool) (ciphertext : Bytes) (format : SecretFormat) : Action Bytes := do
  t.checkInstalled
  Action.ofExcept (checkCiphertext ciphertext)
  Action.ofExcept (opened (← t.runWith "envv-decrypt-" "secrets.enc.json" ciphertext
    (decryptArguments format) fun encrypted => [encrypted]))

end Tool

end Sops

end TeamVault
