import TeamVault.Command.Line

/-!
The program. The files that a command may need are read into a file tree, the command runs on that
tree, and what it changed is written back. This build has no connection and starts no tools.
-/
namespace TeamVault.Main

def addFile (t : Tree) (p : Path) : IO Tree := do
  match ← (IO.FS.readBinFile p.toText).toBaseIO with
  | .ok data =>
    match (t.makeDirectories [] p.parent).1.write [] p none data.data.toList with
    | .ok t => return t
    | .error _ => return t
  | .error _ => return t

def candidates (h : Host) (line : List String) : List Path :=
  let here : Path := ⟨.root, h.workDirectory⟩
  let word (s : String) : Path := here.join (((Path.ofText s).expandHome? h.home).getD here)
  let stores := word Local.usualHome.toText :: line.map word
  stores.flatMap (fun p => [p.child SettingsFile.fileName, p.child Credentials.fileName]) ++
    line.map word ++ Environment.all.map (fun e => here.join e.defaultFile) ++
    [(here.child Local.directoryName).child BindingFile.fileName,
      word ClientSettings.default.keyFile.toText]

def rights (digit : Nat) : IO.AccessRight :=
  { read := digit.testBit 2, write := digit.testBit 1, execution := digit.testBit 0 }

def setMode (path : String) (mode : Nat) : IO Unit :=
  IO.setAccessRights path
    { user := rights (mode / 64), group := rights (mode / 8 % 8), other := rights (mode % 8) }

def saveNode (path : String) : Node → IO Unit
  | .directory mode => do
    IO.FS.createDirAll path
    setMode path mode
  | .file mode data => do
    IO.FS.writeBinFile path ⟨#[]⟩
    setMode path mode
    IO.FS.writeBinFile path ⟨data.toArray⟩

def save (old new : Tree) : IO Unit := do
  for (l, n) in new.entries do
    if old.node? l ≠ some n then saveNode (⟨.root, l⟩ : Path).toText n
  for (l, n) in old.entries do
    if (new.node? l).isNone && !n.isDirectory then IO.FS.removeFile (⟨.root, l⟩ : Path).toText

/-- The host that the program finds, without a connection and without tools. -/
def host : IO Host := do
  let (_, made) ← IO.FS.createTempFile
  let modified := (← made.metadata).modified
  IO.FS.removeFile made
  let seed ← IO.rand 0 1000000000000
  return {
    workDirectory := (Path.ofText (← IO.currentDir).toString).names
    home := .ofText ((← IO.getEnv "HOME").getD "/")
    temporary := (Path.ofText made.toString).parent
    now := .ofInstant (modified.sec * 1000000 + modified.nsec.toNat / 1000)
    serviceUrl := ← IO.getEnv "ENVV_API_URL"
    isInstalled := fun _ => false
    freshName := fun n => toString (seed + n)
    respond := fun _ _ => .failed "no connection"
    execute := fun _ _ => .missing }

def usage : String := "Usage: envv [--verbose] [--version] GROUP COMMAND [OPTIONS] [WORDS]"

/-- Shows how a command ended. Details of a cause are not kept, so that a mark stands for them. -/
def finish : Except Failure Command.Ending × World → IO UInt32
  | (.ok e, w) => do
    IO.print w.printed
    for text in w.warnings do IO.eprintln text
    if e.code = Command.misused.code then IO.eprintln usage
    return e.code.toNat.toUInt32
  | (.error _, w) => do
    IO.print w.printed
    IO.eprintln "The command could not be finished."
    return 1

def run (line : List String) : IO UInt32 := do
  let h ← host
  let input ← IO.getStdin
  let typed ← if ← input.isTty then pure "" else input.readToEnd
  let known := [⟨.root, h.workDirectory⟩, h.home, h.temporary].foldl
    (fun t p => (Tree.makeDirectories t [] p).1) ⟨[([], .directory 0o755)]⟩
  let tree ← (candidates h line).foldlM addFile known
  let ended := Command.runLine line h ⟨tree, [], [], "", Console.typedLines typed⟩
  save tree ended.2.files
  finish ended

end TeamVault.Main

def main (line : List String) : IO UInt32 := TeamVault.Main.run line
