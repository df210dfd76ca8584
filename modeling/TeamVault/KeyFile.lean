import TeamVault.Files.Access
import TeamVault.Keypair

/-!
The private key file. New keys are added at the end; an identity that is there is never lost.
-/
namespace TeamVault

namespace KeyFile

def publicKeyMark : String := "# public key: "

def entry (created : Timestamp) (k : Keypair) : String :=
  "# created: " ++ created.toText ++ "\n" ++ publicKeyMark ++ k.publicKey ++ "\n" ++
    k.privateKey ++ "\n"

def withEntry (text : String) (e : String) : String :=
  if text = "" then e else text ++ "\n" ++ e

def save (k : Keypair) (given : Path) : Action Path := do
  let p ← Action.expandHome given
  Files.makeDirectories p.parent
  Files.setMode p.parent 0o700
  let e := entry (← Action.host).now k
  let text ← if ← Files.isThere p then Files.readText p else pure ""
  Files.writePrivate p (Text.Utf8.encode (withEntry text e))
  return p

def firstPublicKey? (text : String) : Option String :=
  ((Text.splitLines text).find? fun line =>
    publicKeyMark.toList.isPrefixOf (Text.lowerCase line).toList).map fun line =>
      Text.trim (String.ofList (line.toList.drop publicKeyMark.length))

def publicKey (given : Path) : Action String := do
  let p ← Action.expandHome given
  if ← Files.isThere p then
    match firstPublicKey? (← Files.readText p) with
    | some key => return key
    | none => Action.raise (.of .config ("No public key found in " ++ p.toText))
  else
    Action.raise (.of .config ("age key file not found at " ++ p.toText)
      (some "Run 'envv auth register' to generate a key."))

end KeyFile

namespace Keypair

def generatorSource : String := "https://github.com/FiloSottile/age"

def generatorTimeout : Binary64 := .ofInt 30

def generatorName : String := "age-keygen"

def outputText (bs : Bytes) : Action String :=
  match Text.Utf8.decode? bs with
  | some s => pure (Text.unifyBreaks s)
  | none => Action.crash .undecodable

def generate (program : String := generatorName) : Action Keypair := do
  if (← Action.host).isInstalled program then
    match ← Action.execute ⟨program, [], generatorTimeout, none, []⟩ with
    | .missing => Action.crash .fileSystem
    | .timedOut => Action.crash .timedOut
    | .exited code output diagnostics =>
      let output ← outputText output
      let diagnostics ← outputText diagnostics
      if code ≠ 0 then
        Action.raise (.of .engine ("age-keygen failed: " ++ Text.trim diagnostics))
      else Action.ofExcept (ofOutput (output ++ "\n" ++ diagnostics))
  else Action.raise (.unavailable program generatorSource)

end Keypair

end TeamVault
