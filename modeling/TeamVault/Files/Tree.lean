import TeamVault.Path
import TeamVault.Text.Utf8

/-!
File trees. A location is the list of names from the top down; the entries are files with their
bytes and directories. A path leads from a directory to a location, through directories only.
Main statements: what is put at a location is found there and nothing else changes; what is removed
leaves all other locations as they were.
-/
namespace TeamVault

abbrev Location := List String

inductive Node
  | file (mode : Nat) (data : Bytes)
  | directory (mode : Nat)
  deriving DecidableEq

namespace Node

def mode : Node → Nat
  | file mode _ | directory mode => mode

def withMode (mode : Nat) : Node → Node
  | file _ data => file mode data
  | directory _ => directory mode

def isDirectory : Node → Bool
  | directory _ => true
  | file .. => false

end Node

inductive FileError
  | notFound
  | notDirectory
  | isDirectory
  | alreadyThere
  | nameTooLong
  | badName
  deriving DecidableEq

structure Tree where
  entries : List (Location × Node)

namespace Tree

def nodeIn? (spot : Location) : List (Location × Node) → Option Node
  | [] => none
  | (l, n) :: rest => if l = spot then some n else nodeIn? spot rest

def node? (t : Tree) (spot : Location) : Option Node := nodeIn? spot t.entries

def putEntry (spot : Location) (n : Node) : List (Location × Node) → List (Location × Node)
  | [] => [(spot, n)]
  | (l, m) :: rest => if l = spot then (l, n) :: rest else (l, m) :: putEntry spot n rest

def put (t : Tree) (spot : Location) (n : Node) : Tree := ⟨putEntry spot n t.entries⟩

def remove (t : Tree) (spot : Location) : Tree :=
  ⟨t.entries.filter fun e => !spot.isPrefixOf e.1⟩

theorem nodeIn?_putEntry (spot other : Location) (n : Node) (es : List (Location × Node)) :
    nodeIn? other (putEntry spot n es) = if other = spot then some n else nodeIn? other es := by
  induction es with
  | nil => simp [putEntry, nodeIn?, eq_comm]
  | cons e rest ih =>
    obtain ⟨l, m⟩ := e
    rw [putEntry]
    by_cases hl : l = spot
    · subst hl
      by_cases h : other = l
      · simp [h, nodeIn?]
      · simp [h, nodeIn?, Ne.symm h]
    · by_cases h : other = l
      · subst h
        simp [hl, nodeIn?]
      · simp [hl, nodeIn?, Ne.symm h, ih]

theorem node?_put (t : Tree) (spot other : Location) (n : Node) :
    (t.put spot n).node? other = if other = spot then some n else t.node? other :=
  nodeIn?_putEntry spot other n t.entries

theorem nodeIn?_filter (keep : Location → Bool) (other : Location) (es : List (Location × Node)) :
    nodeIn? other (es.filter fun e => keep e.1) =
      if keep other then nodeIn? other es else none := by
  induction es with
  | nil => simp [nodeIn?]
  | cons e rest ih =>
    obtain ⟨l, m⟩ := e
    by_cases h : l = other
    · subst h
      by_cases hk : keep l <;> simp [hk, nodeIn?, ih]
    · by_cases hk : keep l <;> simp [hk, nodeIn?, h, ih]

theorem node?_remove (t : Tree) (spot other : Location) :
    (t.remove spot).node? other = if spot.isPrefixOf other then none else t.node? other := by
  have hkept := nodeIn?_filter (fun l => !spot.isPrefixOf l) other t.entries
  by_cases h : spot.isPrefixOf other <;> simpa [node?, remove, h] using hkept

def nameLimit : Nat := 255

def checkName (name : String) : Except FileError Unit :=
  if nameLimit < name.utf8ByteSize then .error .nameTooLong else .ok ()

def walk (t : Tree) (spot : Location) : List String → Except FileError Location
  | [] => .ok spot
  | name :: rest =>
    match t.node? spot with
    | none => .error .notFound
    | some (.file ..) => .error .notDirectory
    | some (.directory _) => do
      checkName name
      t.walk (if name = ".." then spot.dropLast else spot ++ [name]) rest

def start (here : Location) (p : Path) : Location := if p.isAbsolute then [] else here

def locate (t : Tree) (here : Location) (p : Path) : Except FileError Location :=
  if p.names.any fun n => n.toList.contains '\x00' then .error .badName
  else t.walk (start here p) p.names

def find (t : Tree) (here : Location) (p : Path) : Except FileError (Location × Node) := do
  let l ← t.locate here p
  match t.node? l with
  | some n => .ok (l, n)
  | none => .error .notFound

/-- What a path leads to, if anything; only a name that is too long makes that unknown. -/
def probe (t : Tree) (here : Location) (p : Path) : Except FileError (Option Node) :=
  match t.find here p with
  | .ok (_, n) => .ok (some n)
  | .error .nameTooLong => .error .nameTooLong
  | .error _ => .ok none

def read (t : Tree) (here : Location) (p : Path) : Except FileError Bytes :=
  match t.find here p with
  | .ok (_, .file _ data) => .ok data
  | .ok (_, .directory _) => .error .isDirectory
  | .error e => .error e

/-- Writes a file. With a mode the file gets that mode; without one a new file gets `644` and a file
that is there keeps its mode. -/
def write (t : Tree) (here : Location) (p : Path) (mode : Option Nat) (data : Bytes) :
    Except FileError Tree := do
  let l ← t.locate here p
  match t.node? l, t.node? l.dropLast with
  | some (.directory _), _ => .error .isDirectory
  | some (.file old _), _ => .ok (t.put l (.file (mode.getD old) data))
  | none, some (.directory _) => .ok (t.put l (.file (mode.getD 0o644) data))
  | none, _ => .error .notFound

def setMode (t : Tree) (here : Location) (p : Path) (mode : Nat) : Except FileError Tree := do
  let (l, n) ← t.find here p
  .ok (t.put l (n.withMode mode))

def removeFile (t : Tree) (here : Location) (p : Path) : Except FileError Tree := do
  match ← t.find here p with
  | (l, .file ..) => .ok (t.remove l)
  | (_, .directory _) => .error .isDirectory

def makeDirectory (t : Tree) (here : Location) (p : Path) (mode : Nat) : Except FileError Tree := do
  let l ← t.locate here p
  match t.node? l with
  | some _ => .error .alreadyThere
  | none => .ok (t.put l (.directory mode))

/-- Makes the directories along names where they are missing; those made before a failure stay. -/
def makeAlong (t : Tree) (spot : Location) : List String → Tree × Option FileError
  | [] => (t, none)
  | name :: rest =>
    match checkName name with
    | .error e => (t, some e)
    | .ok () =>
      let next := if name = ".." then spot.dropLast else spot ++ [name]
      match t.node? next with
      | some (.directory _) => t.makeAlong next rest
      | some (.file ..) => (t, some .notDirectory)
      | none => (t.put next (.directory 0o755)).makeAlong next rest

def makeDirectories (t : Tree) (here : Location) (p : Path) : Tree × Option FileError :=
  if p.names.any fun n => n.toList.contains '\x00' then (t, some .badName)
  else t.makeAlong (start here p) p.names

end Tree

end TeamVault
