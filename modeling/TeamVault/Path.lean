import TeamVault.Text.Parts

/-!
Paths as an anchor and names. A written path loses empty names and single dots; `..` is kept, since
what it leads to depends on the file tree.
-/
namespace TeamVault

/-- Where a path starts. Exactly two leading slashes are an anchor of their own. -/
inductive Anchor
  | relative
  | root
  | doubleRoot
  deriving DecidableEq

structure Path where
  anchor : Anchor
  names : List String
  deriving DecidableEq

namespace Path

def anchorOf : List Char → Anchor
  | '/' :: '/' :: '/' :: _ => .root
  | '/' :: '/' :: _ => .doubleRoot
  | '/' :: _ => .root
  | _ => .relative

def ofText (s : String) : Path :=
  { anchor := anchorOf s.toList
    names := ((Text.cut (· == '/') s.toList).map String.ofList).filter fun n => n ≠ "" ∧ n ≠ "." }

def Anchor.text : Anchor → String
  | .relative => ""
  | .root => "/"
  | .doubleRoot => "//"

def toText (p : Path) : String :=
  if p.anchor = .relative ∧ p.names = [] then "."
  else Anchor.text p.anchor ++ "/".intercalate p.names

def isAbsolute (p : Path) : Bool := p.anchor ≠ .relative

def join (p q : Path) : Path :=
  if q.isAbsolute then q else { p with names := p.names ++ q.names }

def child (p : Path) (name : String) : Path := p.join (ofText name)

def parent (p : Path) : Path := { p with names := p.names.dropLast }

/-- The home directory stands for a leading tilde; the home of another user is not known. -/
def expandHome? (p home : Path) : Option Path :=
  match p.anchor, p.names with
  | .relative, first :: rest =>
    if first = "~" then some { home with names := home.names ++ rest }
    else if first.toList.head? = some '~' then none
    else some p
  | _, _ => some p

theorem parent_names_append (p : Path) (name : String) :
    ({ p with names := p.names ++ [name] } : Path).parent = p := by
  simp [parent]

end Path

end TeamVault
