import OverDelimited.Yaml.Token

/-!
# Nodes of a YAML document

Tokens are read as a tree of scalars, sequences and mappings.  A node may carry an anchor, and an
alias stands for the node of an anchor; the tree keeps aliases as they are and the document keeps
the anchored nodes beside it.
-/

namespace OverDelimited.Yaml

/-- A node.  A tag is kept as far as it is written. -/
inductive Node where
  | scalar (tag : Option (List Char)) (style : Style) (text : List Char)
  | sequence (tag : Option (List Char)) (items : List Node)
  | mapping (tag : Option (List Char)) (entries : List (Node × Node))
  /-- The node that takes the given anchor slot. -/
  | alias (slot : Nat)

/-- The node that is written as nothing. -/
def Node.empty : Node :=
  .scalar none .plain []

/-- An anchored node: the slot it takes, and how many anchors were met before it. -/
structure Anchored where
  slot : Nat
  order : Nat
  node : Node

/-! ### The reader's state -/

/-- The tokens that are left, and what the document has defined so far. -/
structure Reader where
  tokens : List Token
  /-- What tag handles stand for. -/
  handles : List (List Char × List Char) := []
  /-- The slot of each anchor name. -/
  slots : List (List Char × Nat) := []
  /-- How many anchors have been met. -/
  met : Nat := 0
  anchored : List Anchored := []

/-- A step of reading. -/
abbrev Read := StateT Reader Option

namespace Read

/-- The next token. -/
def peek : Read (Option Token) := do
  return (← get).tokens.head?

/-- Moves over the next token. -/
def advance : Read Unit :=
  modify fun r => { r with tokens := r.tokens.drop 1 }

/-- Moves over a token that must come next. -/
def expect (t : Token) : Read Unit := do
  if (← peek) = some t then advance else failure

/-- Whether the next token is one of the given ones. -/
def next (ts : List Token) : Read Bool := do
  return (← peek).any ts.contains

/-! ### Properties of nodes -/

/-- The tag a handle and a suffix stand for. -/
def fullTag (handle suffix : List Char) : Read (List Char) := do
  if handle = [] then return suffix
  match (← get).handles.find? (·.1 = handle) with
  | some (_, stem) => return stem ++ suffix
  | none => failure

/-- An anchor, if one comes next. -/
def anchor? : Read (Option (List Char)) := do
  match ← peek with
  | some (.anchor name) => advance; return some name
  | _ => return none

/-- A tag, if one comes next. -/
def tag? : Read (Option (List Char × List Char)) := do
  match ← peek with
  | some (.tag handle suffix) => advance; return some (handle, suffix)
  | _ => return none

/-- The anchor and the tag of a node, in either order. -/
def properties : Read (Option (List Char) × Option (List Char)) := do
  let (anchor, tag) ← do
    match ← anchor? with
    | some name => pure (some name, ← tag?)
    | none =>
      let tag ← tag?
      if tag.isSome then pure (← anchor?, tag) else pure (none, none)
  match tag with
  | none => return (anchor, none)
  | some (handle, suffix) => return (anchor, some (← fullTag handle suffix))

/-- Gives an anchor a slot, numbered by the names known before it. -/
def takeSlot (name : List Char) : Read (Nat × Nat) := do
  let r ← get
  let slot := r.slots.length
  set { r with slots := (name, slot) :: r.slots.filter (·.1 ≠ name), met := r.met + 1 }
  return (slot, r.met)

/-- Keeps a node under its anchor, if it has one. -/
def keep (place : Option (Nat × Nat)) (n : Node) : Read Node := do
  match place with
  | none => return n
  | some (slot, order) =>
    modify fun r => { r with anchored := ⟨slot, order, n⟩ :: r.anchored }
    return n

/-- The node of the alias of a name. -/
def aliasNode (name : List Char) : Read Node := do
  match (← get).slots.find? (·.1 = name) with
  | some (_, slot) => return .alias slot
  | none => failure

/-- A scalar's tag; the lone exclamation mark stands for no tag. -/
def scalarTag (tag : Option (List Char)) : Option (List Char) :=
  if tag = some ['!'] then none else tag

/-! ### Nodes -/

mutual
/-- A node.  Block collections may stand only where `inBlock` holds, and a sequence without
indentation of its own only where `bare` does. -/
def node (inBlock bare : Bool) : Nat → Read Node
  | 0 => failure
  | fuel + 1 => do
    match ← peek with
    | some (.alias name) => advance; aliasNode name
    | _ =>
      let (anchor, tag) ← properties
      let place ← anchor.mapM takeSlot
      let first ← peek
      match first with
      | some (.scalar style text) =>
        advance
        keep place (.scalar (scalarTag tag) style text)
      | some .flowSequenceStart =>
        advance
        keep place (.sequence tag (← flowItems fuel true))
      | some .flowMappingStart =>
        advance
        keep place (.mapping tag (← flowEntries fuel true))
      | _ =>
        if bare && first = some .blockEntry then
          keep place (.sequence tag (← bareItems fuel))
        else if inBlock && first = some .sequenceStart then
          advance
          keep place (.sequence tag (← blockItems fuel))
        else if inBlock && first = some .mappingStart then
          advance
          keep place (.mapping tag (← blockEntries fuel))
        else if anchor.isSome || tag.isSome then
          keep place (.scalar (scalarTag tag) .plain [])
        else failure

/-- A node, unless one of the given tokens comes next, which leave it empty. -/
def nodeBefore (stops : List Token) (inBlock bare : Bool) : Nat → Read Node
  | 0 => failure
  | fuel + 1 => do
    if (← next stops) then return .empty else node inBlock bare fuel

/-- The items of a block sequence. -/
def blockItems : Nat → Read (List Node)
  | 0 => failure
  | fuel + 1 => do
    match ← peek with
    | some .blockEntry =>
      advance
      let item ← nodeBefore [.blockEntry, .blockEnd] true false fuel
      return item :: (← blockItems fuel)
    | some .blockEnd => advance; return []
    | _ => failure

/-- The items of a sequence that is indented like the mapping around it. -/
def bareItems : Nat → Read (List Node)
  | 0 => failure
  | fuel + 1 => do
    match ← peek with
    | some .blockEntry =>
      advance
      let item ← nodeBefore [.blockEntry, .key, .value, .blockEnd] true false fuel
      return item :: (← bareItems fuel)
    | _ => return []

/-- The entries of a block mapping. -/
def blockEntries : Nat → Read (List (Node × Node))
  | 0 => failure
  | fuel + 1 => do
    match ← peek with
    | some .key =>
      advance
      let k ← nodeBefore [.key, .value, .blockEnd] true true fuel
      let v ← if (← next [.value]) then do
          advance
          nodeBefore [.key, .value, .blockEnd] true true fuel
        else pure .empty
      return (k, v) :: (← blockEntries fuel)
    | some .blockEnd => advance; return []
    | _ => failure

/-- The items of a flow sequence; a lone key and value make a mapping of one entry. -/
def flowItems : Nat → Bool → Read (List Node)
  | 0, _ => failure
  | fuel + 1, first => do
    if (← next [.flowSequenceEnd]) then
      advance
      return []
    if !first then expect .flowEntry
    match ← peek with
    | some .flowSequenceEnd => advance; return []
    | some .key =>
      advance
      let k ← if (← next [.value, .flowEntry, .flowSequenceEnd]) then do
          advance
          pure .empty
        else node false false fuel
      let v ← flowValue [.flowEntry, .flowSequenceEnd] fuel
      return .mapping none [(k, v)] :: (← flowItems fuel false)
    | _ =>
      let item ← node false false fuel
      return item :: (← flowItems fuel false)

/-- The value after a key of a flow collection, empty unless a colon comes next. -/
def flowValue (stops : List Token) : Nat → Read Node
  | 0 => failure
  | fuel + 1 => do
    if (← next [.value]) then
      advance
      nodeBefore stops false false fuel
    else return .empty

/-- The entries of a flow mapping. -/
def flowEntries : Nat → Bool → Read (List (Node × Node))
  | 0, _ => failure
  | fuel + 1, first => do
    if (← next [.flowMappingEnd]) then
      advance
      return []
    if !first then expect .flowEntry
    match ← peek with
    | some .flowMappingEnd => advance; return []
    | some .key =>
      advance
      let k ← nodeBefore [.value, .flowEntry, .flowMappingEnd] false false fuel
      let v ← flowValue [.flowEntry, .flowMappingEnd] fuel
      return (k, v) :: (← flowEntries fuel false)
    | _ =>
      let k ← node false false fuel
      return (k, .empty) :: (← flowEntries fuel false)
end

/-! ### Documents -/

/-- The tag handles every document knows. -/
def defaultHandles : List (List Char × List Char) :=
  [("!".toList, "!".toList), ("!!".toList, "tag:yaml.org,2002:".toList)]

/-- The directives of a document: at most one version, and tag handles that differ. -/
def directives : Nat → Bool → Read Unit
  | 0, _ => failure
  | fuel + 1, versioned => do
    match ← peek with
    | some (.versionDirective major minor) =>
      if versioned || major ≠ 1 || !(minor = 1 || minor = 2) then failure
      advance
      directives fuel true
    | some (.tagDirective handle stem) =>
      if (← get).handles.any (·.1 = handle) then failure
      modify fun r => { r with handles := r.handles ++ [(handle, stem)] }
      advance
      directives fuel versioned
    | _ => modify fun r => { r with handles := r.handles ++ defaultHandles }

/-- Whether the next token belongs to no node. -/
def atDocumentToken : Read Bool := do
  match ← peek with
  | none | some .documentStart | some .documentEnd => return true
  | some (.versionDirective _ _) | some (.tagDirective _ _) => return true
  | _ => return false

/-- The end of the text after a document: any number of end marks. -/
def documentEnds : Nat → Read Unit
  | 0 => failure
  | fuel + 1 => do
    match ← peek with
    | none => return ()
    | some .documentEnd => advance; documentEnds fuel
    | _ => failure

/-- The root of the only document, absent if there is none. -/
def document (fuel : Nat) : Read (Option Node) := do
  match ← peek with
  | none => return none
  | some .documentEnd => failure
  | _ =>
    let root ←
      if (← atDocumentToken) then do
        directives fuel false
        expect .documentStart
        if (← atDocumentToken) then pure .empty else node true false fuel
      else do
        directives fuel false
        node true false fuel
    documentEnds fuel
    return some root

end Read

/-- A document: its root, absent if the text holds none, and its anchored nodes. -/
structure Document where
  root : Option Node
  anchored : List Anchored

/-- The one document of a text. -/
def Document.read (text : List Char) : Option Document := do
  let ts ← tokens text
  let (root, r) ← (Read.document (4 * ts.length + 8)).run { tokens := ts }
  some ⟨root, r.anchored⟩

end OverDelimited.Yaml
