import TeamVault.Service.Roster
import TeamVault.Service.VersionStore
import TeamVault.Sops.Tool

/-!
Rotation: the latest version is decrypted, the roster is read again, and the plaintext is encrypted
for its members and pushed. The push is the only step that changes the service; the plaintext is
gone before it starts.
-/
namespace TeamVault

inductive RotationStep
  | fetchCurrent
  | decrypt
  | refreshRecipients
  | buildPolicy
  | encrypt
  | push
  | done
  | aborted
  deriving DecidableEq

def RotationStep.name : RotationStep → String
  | fetchCurrent => "fetch_current"
  | decrypt => "decrypt"
  | refreshRecipients => "refresh_recipients"
  | buildPolicy => "build_policy"
  | encrypt => "encrypt"
  | push => "push"
  | done => "done"
  | aborted => "aborted"

structure Rotation where
  previous : Option SecretVersion
  current : Option SecretVersion
  recipientKeys : List String
  steps : List RotationStep
  failure : Option (Option RotationStep × Failure)

namespace Rotation

def start : Rotation := ⟨none, none, [], [], none⟩

def step? (r : Rotation) : Option RotationStep := r.steps.getLast?

def failedStep? (r : Rotation) : Option RotationStep := r.failure.bind Prod.fst

def isRotated (r : Rotation) : Bool := r.current.isSome

def enter (r : Rotation) (s : RotationStep) : Rotation := { r with steps := r.steps ++ [s] }

/-- A part of a rotation: it keeps the record whether or not it fails. -/
abbrev Part (α : Type) := ExceptT Failure (StateT Rotation Action) α

variable {α : Type}

def caught (a : Action α) : Action (Except Failure α) := fun h w =>
  let (result, w) := a h w
  (.ok result, w)

def act (a : Action α) : Part α := ExceptT.mk (StateT.lift (caught a))

def record (f : Rotation → Rotation) : Part Unit := ExceptT.lift (modify f)

def entering (s : RotationStep) : Part Unit := record (·.enter s)

def withScratch (parent : Option Path) (body : Scratch → Part α) : Part α := ExceptT.mk fun r => do
  match ← caught (Scratch.within "envv-rotate-" parent fun scratch => body scratch r) with
  | .ok result => return result
  | .error f => return (.error f, r)

def cannotDecrypt : Failure → Failure
  | .fault f => match f.kind with
    | .permissionDenied => .fault (.of .permissionDenied
        "You cannot rotate secrets you cannot decrypt yourself.")
    | _ => .fault f
  | .crash c => .crash c

def decrypting (tool : Sops.Tool) (ciphertext : Bytes) (format : SecretFormat) : Action Bytes :=
  (tool.decrypt ciphertext format).recover fun f => Action.fail (cannotDecrypt f)

def formatOf (v : SecretVersion) : Action SecretFormat :=
  match v.format with
  | some f => pure f
  | none => Action.crash .shape

def isNotFound : Failure → Bool
  | .fault f => match f.kind with
    | .notFound => true
    | _ => false
  | .crash _ => false

def recoverFile (tool : Sops.Tool) (current : SecretVersion) (scratch : Scratch) :
    Part (Path × SecretFormat) := do
  entering .decrypt
  let format ← act (formatOf current)
  let plaintext ← act (decrypting tool current.ciphertext format)
  return (← act (scratch.write ".env.rotate" plaintext), format)

def sealAnew (c : Client) (tool : Sops.Tool) (project : String) (file : Path)
    (format : SecretFormat) : Part (Bytes × Json.Fields) := do
  entering .refreshRecipients
  let recipients ← act (Roster.ofProject c project)
  entering .buildPolicy
  let policy ← act (Action.ofExcept (Policy.build recipients))
  record fun r => { r with recipientKeys := policy.recipientKeys }
  entering .encrypt
  act (tool.encrypt file policy format)

def reseal (c : Client) (tool : Sops.Tool) (project : String) (current : SecretVersion)
    (scratch : Scratch) : Part ((Bytes × Json.Fields) × SecretFormat) := do
  let (file, format) ← recoverFile tool current scratch
  return (← sealAnew c tool project file format, format)

def renew (c : Client) (tool : Sops.Tool) (project : String) (environment : Environment)
    (parent : Option Path) (current : SecretVersion) : Part Unit := do
  let ((ciphertext, metadata), format) ← withScratch parent (reseal c tool project current)
  entering .push
  let pushed ← act (VersionStore.push c project environment ciphertext format metadata)
  record fun r => { r with current := some pushed }
  entering .done

/-- Nothing of an earlier rotation is kept. -/
def proceed (c : Client) (tool : Sops.Tool) (project : String) (environment : Environment)
    (parent : Option Path) : Part Unit := do
  record fun _ => start
  entering .fetchCurrent
  match ← act (caught (VersionStore.pull c project environment)) with
  | .ok current =>
    record fun r => { r with previous := some current }
    renew c tool project environment parent current
  | .error f => if isNotFound f then entering .done else throw f

def abortText (project : String) (environment : Environment) (s : Option RotationStep) : String :=
  "Rotation of " ++ project ++ "/" ++ environment.name ++ " aborted at " ++
    ((s.map RotationStep.name).getD "start")

/-- Runs a rotation with scratch directories in `parent`, after an `earlier` one. It does not fail
itself: its record tells a failure. -/
def run (c : Client) (tool : Sops.Tool) (project : String) (environment : Environment)
    (parent : Option Path := none) (earlier : Rotation := start) : Action Rotation := do
  match ← (proceed c tool project environment parent).run.run earlier with
  | (.ok (), r) => return r
  | (.error f, r) =>
    Action.warn (abortText project environment r.step?)
    return { r.enter .aborted with failure := some (r.step?, f) }

end Rotation

end TeamVault
