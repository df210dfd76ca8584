import TeamVault.Fault
import TeamVault.Files.Tree
import TeamVault.Time.Timestamp

/-!
The world that the program acts on. A host answers requests and runs tools, each answer depending on
all that happened before; a world is what an action may change: files, the record of events,
warnings, and the terminal.
-/
namespace TeamVault

structure Request where
  method : String
  url : String
  headers : List (String × String)
  body : Option Json
  params : Option Json
  timeout : Binary64

inductive Reply
  | failed (text : String)
  | answered (status : Int) (reason : String) (body : Bytes)

structure FileView where
  path : String
  mode : Nat
  directoryMode : Nat
  data : Bytes

structure Run where
  program : String
  arguments : List String
  timeout : Binary64
  keyFile : Option String
  reads : List FileView

inductive Outcome
  | missing
  | timedOut
  | exited (code : Int) (output diagnostics : Bytes)

structure Request.Sent extends Request where
  files : Tree

structure Run.Started extends Run where
  files : Tree

inductive Event
  | request (r : Request.Sent)
  | run (r : Run.Started)

/-- What an action finds and cannot change. -/
structure Host where
  workDirectory : Location
  home : Path
  temporary : Path
  now : Timestamp
  serviceUrl : Option String
  isInstalled : String → Bool
  freshName : Nat → String
  respond : List Event → Request → Reply
  execute : List Event → Run → Outcome

structure World where
  files : Tree
  events : List Event
  warnings : List String
  printed : String
  typed : List String

def World.log (w : World) (e : Event) : World := { w with events := w.events ++ [e] }

abbrev Action := ReaderT Host (ExceptT Failure (StateM World))

namespace Action

variable {α : Type}

def fail (f : Failure) : Action α := fun _ w => (.error f, w)

def raise (f : Fault) : Action α := fail (.fault f)

def crash (c : Crash) : Action α := fail (.crash c)

def ofResult (r : Except Failure α) : Action α := fun _ w => (r, w)

def ofExcept (r : Except Fault α) : Action α := ofResult (r.mapError .fault)

def host : Action Host := fun h w => (.ok h, w)

def world : Action World := fun _ w => (.ok w, w)

def update (f : World → World) : Action Unit := fun _ w => (.ok (), f w)

/-- Runs `cleanup` after `body`, whichever way that ends; the result is that of `body`. -/
def always (body : Action α) (cleanup : Action Unit) : Action α := fun h w =>
  let (result, w) := body h w
  (result, (cleanup h w).2)

def recover (body : Action α) (handle : Failure → Action α) : Action α := fun h w =>
  match body h w with
  | (.ok a, w) => (.ok a, w)
  | (.error f, w) => handle f h w

def warn (text : String) : Action Unit :=
  update fun w => { w with warnings := w.warnings ++ [text] }

def send (r : Request) : Action Reply := fun h w =>
  (.ok (h.respond w.events r), w.log (.request ⟨r, w.files⟩))

def execute (r : Run) : Action Outcome := fun h w =>
  (.ok (h.execute w.events r), w.log (.run ⟨r, w.files⟩))

def expandHome (p : Path) : Action Path := do
  match p.expandHome? (← host).home with
  | some q => pure q
  | none => crash .notReady

end Action

end TeamVault
