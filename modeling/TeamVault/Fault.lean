import TeamVault.Checked
import TeamVault.Json.Writer

/-!
What can go wrong. A fault belongs to the program's own taxonomy and tells its user what to try; a
crash is a failure of another sort, which the program does not explain. Nothing is tried again.
-/
namespace TeamVault

inductive Cause
  | fields (errors : List FieldError)
  | notJson
  | notYaml
  | missingKey (key : String)
  | shape

def Cause.mark : String := "<cause>"

inductive FaultKind
  | general
  | config
  | auth
  | authz
  | notFound
  | service (status : Int) (code : Json) (details : Json)
  | noRecipients
  | engine
  | engineUnavailable (dependency : String)
  | metadataMissing
  | permissionDenied
  | corruptCiphertext
  | usage

namespace FaultKind

def parent? : FaultKind → Option FaultKind
  | general => none
  | engineUnavailable _ | metadataMissing | permissionDenied | corruptCiphertext => some engine
  | _ => some general

def hint : FaultKind → String
  | auth => "Run 'envv auth login' to start a new session."
  | authz => "Ask a project admin to grant you access."
  | noRecipients =>
    "At least one project member must register an age public key ('envv auth register') " ++
      "before secrets can be encrypted."
  | metadataMissing => "The stored blob was not produced by sops; re-push the secrets."
  | permissionDenied =>
    "Ask a project admin to run 'envv secrets rotate' after adding your key."
  | corruptCiphertext =>
    "The stored version looks corrupted; consider 'envv secrets rollback'."
  | _ => ""

end FaultKind

structure Fault where
  kind : FaultKind
  text : String
  hint : String
  cause : Option Cause

namespace Fault

def of (kind : FaultKind) (text : String) (hint : Option String := none) : Fault :=
  ⟨kind, text, hint.getD kind.hint, none⟩

def because (kind : FaultKind) (text : String) (cause : Cause) : Fault :=
  ⟨kind, text ++ Cause.mark, kind.hint, some cause⟩

/-- A fault of the service; details that say nothing become an empty object. -/
def service (text : String) (status : Int) (code : Json) (details : Json) : Fault :=
  of (.service status code (if details.isPresent then details else .object [])) text

def unavailable (dependency source : String) : Fault :=
  of (.engineUnavailable dependency) (dependency ++ " not found")
    (some (if source = "" then "Install " ++ dependency else "Install it from " ++ source))

def message (f : Fault) : String :=
  match f.kind with
  | .service status code _ =>
    if status = 0 then f.text
    else "API error " ++ toString status ++ " (" ++
      (if code.isPresent then code.messageText else "unknown") ++ "): " ++ f.text
  | _ => f.text

end Fault

inductive Crash
  | fileSystem
  | undecodable
  | shape
  | badValue
  /-- A value without a form in the language it is to be written in. -/
  | unwritable
  | missingKey
  | missingAttribute
  | timedOut
  | notReady
  | markup
  | fields (errors : List FieldError)

inductive Failure
  | fault (f : Fault)
  | crash (c : Crash)

end TeamVault
