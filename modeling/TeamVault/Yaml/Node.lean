import TeamVault.Yaml.Implicit
import TeamVault.Yaml.Token

/-!
Nodes of a YAML document: scalars, sequences and mappings, each with the tag that its values are
made by. An alias stands for the node of its anchor.
-/
namespace TeamVault.Yaml

inductive Tag
  | null
  | truth
  | integer
  | float
  | binary
  | timestamp
  | orderedMap
  | pairs
  | set
  | text
  | sequence
  | mapping
  | merge
  | value
  | unknown
  deriving DecidableEq

namespace Tag

def home : String := "tag:yaml.org,2002:"

def ofName : String → Tag
  | "null" => null
  | "bool" => truth
  | "int" => integer
  | "float" => float
  | "binary" => binary
  | "timestamp" => timestamp
  | "omap" => orderedMap
  | "pairs" => pairs
  | "set" => set
  | "str" => text
  | "seq" => sequence
  | "map" => mapping
  | "merge" => merge
  | "value" => value
  | _ => unknown

def ofUri (s : String) : Tag :=
  if home.toList.isPrefixOf s.toList then ofName (String.ofList (s.toList.drop home.length))
  else unknown

def ofImplicit : Implicit → Tag
  | .null => null
  | .truth => truth
  | .integer => integer
  | .float => float
  | .timestamp => timestamp
  | .merge => merge
  | .value => value
  | .text => text

end Tag

inductive Node
  | scalar (tag : Tag) (text : String)
  | sequence (tag : Tag) (items : List Node)
  | mapping (tag : Tag) (entries : List (Node × Node))
  | enclosing
  deriving Inhabited

namespace Node

/-- Tokens still to be read, what is wrong behind the last of them, and the anchors met so far; a
collection that is still being read has no node yet. -/
structure Reading where
  tokens : List Token
  behind : Problem
  anchors : List (String × Option Node)

abbrev Reader := StateT Reading (Except Problem)

def malformed {α : Type} : Reader α := do
  let r ← get
  StateT.lift (.error (if r.tokens.isEmpty then r.behind else .malformed))

def peek : Reader (Option Token) := do return (← get).tokens.head?

def drop : Reader Unit := modify fun r => { r with tokens := r.tokens.drop 1 }

def setAnchor (name : Option String) (n : Option Node) : Reader Unit :=
  match name with
  | some a => modify fun r => { r with anchors := (a, n) :: r.anchors }
  | none => pure ()

def empty : Node := .scalar .null ""

abbrev Handles := List (String × String)

def usualHandles : Handles := [("!", "!"), ("!!", Tag.home)]

inductive Tagged
  | untagged
  | asPlain
  | tagged (t : Tag)

def resolve (handles : Handles) (t : TagText) : Except Problem Tagged :=
  let full := match t.handle with
    | none => some t.rest
    | some h => (handles.lookup h).map (· ++ t.rest)
  match full with
  | some s => .ok (if s = "!" then .asPlain else .tagged (Tag.ofUri s))
  | none => .error .malformed

def properties (handles : Handles) : Reader (Option String × Tagged) := do
  match ← peek with
  | some (.anchor a) =>
    drop
    match ← peek with
    | some (.tag t) => do
      drop
      return (some a, ← StateT.lift (resolve handles t))
    | _ => return (some a, .untagged)
  | some (.tag t) =>
    drop
    let tag ← StateT.lift (resolve handles t)
    match ← peek with
    | some (.anchor a) => do
      drop
      return (some a, tag)
    | _ => return (none, tag)
  | _ => return (none, .untagged)

def scalarTag (tagged : Tagged) (plain : Bool) (text : String) : Tag :=
  match tagged with
  | .tagged t => t
  | .asPlain => .ofImplicit (Implicit.ofChars text.toList)
  | .untagged => if plain then .ofImplicit (Implicit.ofChars text.toList) else .text

def collectionTag (tagged : Tagged) (usual : Tag) : Tag :=
  match tagged with
  | .tagged t => t
  | _ => usual

def isKeyMark : Option Token → Bool
  | some .key | some .value => true
  | _ => false

def isBlockEnd : Option Token → Bool
  | some .blockEnd => true
  | _ => false

def isBlockEntry : Option Token → Bool
  | some .blockEntry => true
  | _ => false

def isFlowEntry : Option Token → Bool
  | some .flowEntry => true
  | _ => false

def isSequenceEnd : Option Token → Bool
  | some .flowSequenceEnd => true
  | _ => false

def isMappingEnd : Option Token → Bool
  | some .flowMappingEnd => true
  | _ => false

inductive Place
  | flow
  | block
  | blockValue
  deriving DecidableEq

def flowComma (first : Bool) : Reader Unit := do
  if first then pure ()
  else match ← peek with
    | some .flowEntry => drop
    | _ => malformed

mutual

def node (handles : Handles) (place : Place) : Nat → Reader Node
  | 0 => malformed
  | fuel + 1 => do
    match ← peek with
    | some (.alias a) =>
      drop
      match (← get).anchors.lookup a with
      | some n => return n.getD .enclosing
      | none => malformed
    | _ =>
      let (anchor, tagged) ← properties handles
      let known := (← get).anchors
      if anchor.any fun a => (known.lookup a).isSome then malformed
      else
        let next ← peek
        match next with
        | some (.scalar text plain) =>
          drop
          let n := .scalar (scalarTag tagged plain text) text
          setAnchor anchor (some n)
          return n
        | some .flowSequenceStart =>
          drop
          setAnchor anchor none
          let n := .sequence (collectionTag tagged .sequence)
            (← flowItems handles true fuel)
          setAnchor anchor (some n)
          return n
        | some .flowMappingStart =>
          drop
          setAnchor anchor none
          let n := .mapping (collectionTag tagged .mapping)
            (← flowEntries handles true fuel)
          setAnchor anchor (some n)
          return n
        | _ =>
          if place = .blockValue && isBlockEntry next then
            setAnchor anchor none
            let n := .sequence (collectionTag tagged .sequence) (← bareItems handles fuel)
            setAnchor anchor (some n)
            return n
          else match place != .flow, next with
            | true, some .blockSequenceStart =>
              drop
              setAnchor anchor none
              let n := .sequence (collectionTag tagged .sequence) (← blockItems handles fuel)
              setAnchor anchor (some n)
              return n
            | true, some .blockMappingStart =>
              drop
              setAnchor anchor none
              let n := .mapping (collectionTag tagged .mapping) (← blockEntries handles fuel)
              setAnchor anchor (some n)
              return n
            | _, _ => match anchor, tagged with
              | none, .untagged => malformed
              | _, _ =>
                let n := .scalar (scalarTag tagged true "") ""
                setAnchor anchor (some n)
                return n

def nodeUnless (handles : Handles) (place : Place) (ends : Option Token → Bool) :
    Nat → Reader Node
  | 0 => malformed
  | fuel + 1 => do
    if ends (← peek) then return empty else node handles place fuel

def blockItems (handles : Handles) : Nat → Reader (List Node)
  | 0 => malformed
  | fuel + 1 => do
    match ← peek with
    | some .blockEntry =>
      drop
      let n ← nodeUnless handles .block (fun t => isBlockEntry t || isBlockEnd t) fuel
      return n :: (← blockItems handles fuel)
    | some .blockEnd => do
      drop
      return []
    | _ => malformed

def bareItems (handles : Handles) : Nat → Reader (List Node)
  | 0 => malformed
  | fuel + 1 => do
    match ← peek with
    | some .blockEntry =>
      drop
      let n ← nodeUnless handles .block
        (fun t => isBlockEntry t || isKeyMark t || isBlockEnd t) fuel
      return n :: (← bareItems handles fuel)
    | _ => return []

def blockEntries (handles : Handles) : Nat → Reader (List (Node × Node))
  | 0 => malformed
  | fuel + 1 => do
    match ← peek with
    | some .key =>
      drop
      let ends := fun t => isKeyMark t || isBlockEnd t
      let k ← nodeUnless handles .blockValue ends fuel
      let v ← match ← peek with
        | some .value => do
          drop
          nodeUnless handles .blockValue ends fuel
        | _ => pure empty
      return (k, v) :: (← blockEntries handles fuel)
    | some .blockEnd => do
      drop
      return []
    | _ => malformed

def flowPair (handles : Handles) (ends : Option Token → Bool) : Nat → Reader (Node × Node)
  | 0 => malformed
  | fuel + 1 => do
    let k ← nodeUnless handles .flow
      (fun t => (match t with
        | some .value => true
        | _ => false) || isFlowEntry t || ends t) fuel
    match ← peek with
    | some .value =>
      drop
      return (k, ← nodeUnless handles .flow (fun t => isFlowEntry t || ends t) fuel)
    | _ => return (k, empty)

def flowItems (handles : Handles) (first : Bool) : Nat → Reader (List Node)
  | 0 => malformed
  | fuel + 1 => do
    if isSequenceEnd (← peek) then do
      drop
      return []
    else
      flowComma first
      match ← peek with
      | some .key =>
        drop
        let pair ← flowPair handles isSequenceEnd fuel
        return .mapping .mapping [pair] :: (← flowItems handles false fuel)
      | some .flowSequenceEnd => do
        drop
        return []
      | _ =>
        let n ← node handles .flow fuel
        return n :: (← flowItems handles false fuel)

def flowEntries (handles : Handles) (first : Bool) : Nat → Reader (List (Node × Node))
  | 0 => malformed
  | fuel + 1 => do
    if isMappingEnd (← peek) then do
      drop
      return []
    else
      flowComma first
      match ← peek with
      | some .key =>
        drop
        let pair ← flowPair handles isMappingEnd fuel
        return pair :: (← flowEntries handles false fuel)
      | some .flowMappingEnd => do
        drop
        return []
      | _ =>
        let k ← node handles .flow fuel
        return (k, empty) :: (← flowEntries handles false fuel)

end

def directives (version : Bool) (handles : Handles) : List Token →
    Except Problem (Handles × List Token)
  | .directive "YAML" (some (major, _)) _ :: rest =>
    if version || major ≠ 1 then .error .malformed else directives true handles rest
  | .directive _ _ (some (h, s)) :: rest =>
    if (handles.lookup h).isSome then .error .malformed
    else directives version ((h, s) :: handles) rest
  | .directive .. :: rest => directives version handles rest
  | ts => .ok (handles ++ usualHandles, ts)

def isContentEnd : Option Token → Bool
  | none | some .documentStart | some .documentEnd | some (.directive ..) => true
  | _ => false

def isDocumentEnd : Token → Bool
  | .documentEnd => true
  | _ => false

def finish (problem : Option Problem) (n : Node) (rest : List Token) : Except Problem Node :=
  match rest.dropWhile isDocumentEnd, problem with
  | [], none => .ok n
  | [], some p => .error p
  | _, _ => .error .malformed

def content (handles : Handles) (problem : Option Problem) (ts : List Token) :
    Except Problem Node := do
  let (n, r) ← (node handles .block (4 * ts.length + 8)).run
    ⟨ts, problem.getD .malformed, []⟩
  finish problem n r.tokens

def ofTokens (tokens : List Token) (problem : Option Problem) : Except Problem Node := do
  match tokens with
  | [] => finish problem empty []
  | .documentStart :: _ | .directive .. :: _ =>
    let (handles, ts) ← directives false [] tokens
    match ts with
    | .documentStart :: ts =>
      if isContentEnd ts.head? then finish problem empty ts else content handles problem ts
    | [] => .error (problem.getD .malformed)
    | _ => .error .malformed
  | _ => content usualHandles problem tokens

end Node

end TeamVault.Yaml
