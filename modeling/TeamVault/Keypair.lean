import TeamVault.Fault
import TeamVault.Text.Blank
import TeamVault.Text.Lines
import TeamVault.Text.LowerCase

/-!
Key pairs and the output of the key generator. The last line of each kind counts, wherever in the
output it stands.
-/
namespace TeamVault

structure Keypair where
  publicKey : String
  privateKey : String
  deriving DecidableEq

namespace Keypair

def display (k : Keypair) : String :=
  "AgeKeypair(public_key=" ++ Text.quoted k.publicKey ++ ", private_key=<redacted>)"

def startsWith (cs : List Char) (start : String) : Bool := start.toList.isPrefixOf cs

def afterColon (cs : List Char) : List Char := (cs.dropWhile (· != ':')).drop 1

/-- A line that tells the public key, under any letter case and behind comment marks. -/
def tellsPublicKey (line : List Char) : Bool :=
  startsWith ((Text.LowerCase.chars [] line).dropWhile fun c => c == '#' || c == ' ')
    "public key:"

def secretKeyStart : String := "AGE-SECRET-KEY-"

inductive Line
  | publicKey (key : String)
  | secretKey (key : String)
  | other

def Line.ofText (s : String) : Line :=
  let line := Text.trimChars s.toList
  if tellsPublicKey line then
    .publicKey (String.ofList (Text.trimChars (afterColon line)))
  else if startsWith line secretKeyStart then .secretKey (String.ofList line)
  else .other

def Line.record (found : Keypair) : Line → Keypair
  | .publicKey key => { found with publicKey := key }
  | .secretKey key => { found with privateKey := key }
  | .other => found

def scan (output : String) : Keypair :=
  (Text.splitLines output).foldl (fun found line => (Line.ofText line).record found) ⟨"", ""⟩

def ofOutput (output : String) : Except Fault Keypair :=
  let found := scan output
  if found.publicKey = "" ∨ found.privateKey = "" then
    .error (.of .engine "Failed to parse age-keygen output")
  else .ok found

end Keypair

end TeamVault
