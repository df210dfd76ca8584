import TeamVault.World
import TeamVault.Text.Lines

/-! File operations as steps of the program. -/
namespace TeamVault.Files

variable {α : Type}

def failure : FileError → Crash
  | .badName => .badValue
  | _ => .fileSystem

def lift (f : Host → Tree → Except FileError α) : Action α := fun h w =>
  match f h w.files with
  | .ok a => (.ok a, w)
  | .error e => (.error (.crash (failure e)), w)

def change (f : Host → Tree → Except FileError Tree) : Action Unit := fun h w =>
  match f h w.files with
  | .ok t => (.ok (), { w with files := t })
  | .error e => (.error (.crash (failure e)), w)

def node? (p : Path) : Action (Option Node) := lift fun h t => t.probe h.workDirectory p

def isThere (p : Path) : Action Bool := do return (← node? p).isSome

def isFile (p : Path) : Action Bool := do
  match ← node? p with
  | some (.file ..) => return true
  | _ => return false

def read (p : Path) : Action Bytes := lift fun h t => t.read h.workDirectory p

def readText (p : Path) : Action String := do
  match Text.Utf8.decode? (← read p) with
  | some s => return Text.unifyBreaks s
  | none => Action.crash .undecodable

def writePrivate (p : Path) (data : Bytes) : Action Unit :=
  change fun h t => t.write h.workDirectory p (some 0o600) data

def writeText (p : Path) (s : String) : Action Unit :=
  change fun h t => t.write h.workDirectory p none (Text.Utf8.encode s)

def setMode (p : Path) (mode : Nat) : Action Unit :=
  change fun h t => t.setMode h.workDirectory p mode

def removeFile (p : Path) : Action Unit := change fun h t => t.removeFile h.workDirectory p

def makeDirectories (p : Path) : Action Unit := fun h w =>
  let (t, e) := w.files.makeDirectories h.workDirectory p
  (match e with
    | none => .ok ()
    | some e => .error (.crash (failure e)), { w with files := t })

def view? (t : Tree) (here : Location) (p : String) : Option FileView :=
  match t.find here (.ofText p) with
  | .ok (l, .file mode data) => some
      { path := p
        mode := mode
        directoryMode := ((t.node? l.dropLast).map Node.mode).getD 0
        data := data }
  | _ => none

def views (paths : List String) : Action (List FileView) := do
  let h ← Action.host
  let t := (← Action.world).files
  return paths.filterMap (view? t h.workDirectory)

end TeamVault.Files
