import TeamVault.Files.Access

/-!
Private directories for plaintext and intermediate ciphertext. A scratch directory is there while
its block runs and is gone when the block ends, whichever way it ends.
-/
namespace TeamVault

inductive Scratch
  | closed
  | opened (directory : Path)

namespace Scratch

def attempts : Nat := 10000

def nameIn (h : Host) (start : String) (parent : Path) (n : Nat) : Path :=
  .ofText (parent.join (.ofText (start ++ h.freshName n))).toText

def firstFree {α : Type} (attempt : Nat → Except FileError α) : Nat → Nat → Except FileError α
  | 0, _ => .error .alreadyThere
  | fuel + 1, n =>
    match attempt n with
    | .error .alreadyThere => firstFree attempt fuel (n + 1)
    | r => r

def make (h : Host) (t : Tree) (start : String) (parent : Path) : Except FileError (Path × Tree) :=
  firstFree (fun n =>
    (t.makeDirectory h.workDirectory (nameIn h start parent n) 0o700).map
      (nameIn h start parent n, ·)) attempts 0

def create (start : String) (parent : Option Path) : Action Scratch := fun h w =>
  match make h w.files start (parent.getD h.temporary) with
  | .ok (p, t) => (.ok (.opened p), { w with files := t })
  | .error e => (.error (.crash (Files.failure e)), w)

/-- Writes a file that only its owner may read; the name is a path seen from the directory. -/
def write (s : Scratch) (name : String) (data : Bytes) : Action Path :=
  match s with
  | closed => Action.crash .notReady
  | opened directory => do
    let target := directory.child name
    Files.writePrivate target data
    return target

def clear (s : Scratch) : Action Scratch := fun h w =>
  (.ok closed, match s with
    | closed => w
    | opened directory => match w.files.find h.workDirectory directory with
      | .ok (l, .directory _) => { w with files := w.files.remove l }
      | _ => w)

def within {α : Type} (start : String) (parent : Option Path) (body : Scratch → Action α) :
    Action α := do
  let s ← create start parent
  (body s).always (do let _ ← s.clear)

end Scratch

end TeamVault
