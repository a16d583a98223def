import OverDelimited.Program.Decode
import OverDelimited.Yaml.Node
import OverDelimited.Yaml.Schema

/-!
# Programs from YAML

The root of a document is a mapping, of which only the body counts, and nothing at all is the
program without a body.  What lies inside an expression is made a datum first, each scalar by its
tag or its spelling, and is nested at most `nestingLimit` levels deep.  An alias is followed each
time it is met, but not without end.
-/

namespace OverDelimited.Yaml

/-- How deep collections may be nested, the root counted. -/
def nestingLimit : Nat := 128

/-- How often aliases may be followed for each part of a document. -/
def aliasFactor : Nat := 100

/-! ### Following aliases -/

mutual
/-- How many parts a node has: a collection counts its start and its end. -/
def Node.parts : Node → Nat
  | .scalar _ _ _ | .alias _ => 1
  | .sequence _ items => itemParts items + 2
  | .mapping _ entries => entryParts entries + 2

/-- The parts of items. -/
def itemParts : List Node → Nat
  | [] => 0
  | n :: rest => n.parts + itemParts rest

/-- The parts of entries. -/
def entryParts : List (Node × Node) → Nat
  | [] => 0
  | (k, v) :: rest => k.parts + v.parts + entryParts rest
end

/-- Reading with a bound on how many more aliases are followed. -/
abbrev Follow := StateT Nat Option

/-- The node an anchor slot was last given to. -/
def Document.slot? (d : Document) (slot : Nat) : Option Node :=
  let holders := d.anchored.filter (·.slot = slot)
  let newest := holders.foldl (fun order a => max order a.order) 0
  (holders.find? (·.order = newest)).map (·.node)

/-- The node itself, or the node an alias stands for. -/
def Document.follow (d : Document) : Node → Follow Node
  | .alias slot => do
    match ← get with
    | 0 => failure
    | left + 1 =>
      set left
      d.slot? slot
  | n => pure n

/-! ### Scalars -/

/-- A tag the language itself defines. -/
def coreTag (name : String) : List Char :=
  ("tag:yaml.org,2002:" ++ name).toList

/-- Whether a tag is one the document makes up. -/
def isLocal (tag : Option (List Char)) : Bool :=
  tag.any fun cs => cs.head? = some '!'

/-- The datum of a scalar.  A tag of a basic type asks for that type's spelling. -/
def scalarDatum (tag : Option (List Char)) (style : Style) (text : List Char) : Option Datum :=
  if isLocal tag then none
  else
    match tag with
    | none => if style = .plain then plainDatum text else some (.text (String.ofList text))
    | some tag =>
      let value := plainValue text
      if tag = coreTag "bool" then
        match value with
        | .bool b => some (.bool b)
        | _ => none
      else if tag = coreTag "int" then
        match value with
        | .natural n => some (.natural n)
        | .negative => some (.number (String.ofList text))
        | _ => none
      else if tag = coreTag "float" then
        if isFloat text then some (.number (String.ofList text)) else none
      else if tag = coreTag "null" then
        if value = .null && text ≠ [] then some .null else none
      else some (.text (String.ofList text))

/-! ### Data -/

/-- The key a datum is. -/
def keyOf : Datum → Key
  | .text s => .text s
  | .natural n => .index n
  | _ => .other

namespace Document

/-- The datum of a node that is nested at most `depth` levels deep. -/
def datum (d : Document) : Nat → Node → Follow Datum
  | 0, n => do
    match ← d.follow n with
    | .scalar tag style text => scalarDatum tag style text
    | _ => failure
  | depth + 1, n => do
    match ← d.follow n with
    | .scalar tag style text => scalarDatum tag style text
    | .sequence tag items =>
      if isLocal tag then failure
      return .list (← items.mapM (datum d depth))
    | .mapping tag entries =>
      if isLocal tag then failure
      let read (e : Node × Node) : Follow (Key × Datum) := do
        let key ← datum d depth e.1
        return (keyOf key, ← datum d depth e.2)
      return .record (← entries.mapM read)
    | .alias _ => failure

/-- The text of a node that must be a scalar. -/
def text (d : Document) (n : Node) : Follow String := do
  match ← d.follow n with
  | .scalar _ _ text => return String.ofList text
  | _ => failure

/-- An entry of an expression in the body, whose kind is the text that names it. -/
def outerEntry (d : Document) (depth : Nat) (e : Node × Node) : Follow (Key × Datum) := do
  let key ← datum d depth e.1
  if keyOf key = .text "type" then
    return (.text "type", .text (← d.text e.2))
  else
    return (keyOf key, ← datum d depth e.2)

/-- The datum of an expression in the body. -/
def outerDatum (d : Document) (depth : Nat) (n : Node) : Follow Datum := do
  match depth, ← d.follow n with
  | depth + 1, .sequence tag (first :: items) =>
    if isLocal tag then failure
    let kind ← d.text first
    return .list (.text kind :: (← items.mapM (datum d depth)))
  | depth + 1, .mapping tag entries =>
    if isLocal tag then failure
    return .record (← entries.mapM (outerEntry d depth))
  | _, _ => failure

/-! ### Programs -/

/-- An expression of the body. -/
def expr (d : Document) (depth : Nat) (n : Node) : Follow Expr := do
  match (← d.outerDatum depth n).toExpr with
  | .ok e => return e
  | .error _ => failure

/-- The body of a program, nested at most `depth` levels deep. -/
def body (d : Document) (depth : Nat) (n : Node) : Follow (List Expr) := do
  match ← d.follow n with
  | .sequence _ items => items.mapM (d.expr (depth - 1))
  | .scalar _ .plain [] => return []
  | _ => failure

/-- The bodies among the entries of the root. -/
def bodies (d : Document) (depth : Nat) : List (Node × Node) → Follow (List (List Expr))
  | [] => return []
  | (k, v) :: rest => do
    if (← d.text k) = "body" then
      let es ← d.body depth v
      return es :: (← bodies d depth rest)
    else bodies d depth rest

/-- The program of a document. -/
def program (d : Document) : Follow Program := do
  match d.root with
  | none => return ⟨[]⟩
  | some root =>
    match ← d.follow root with
    | .scalar _ .plain [] => return ⟨[]⟩
    | .mapping _ entries =>
      match ← d.bodies (nestingLimit - 1) entries with
      | [] => return ⟨[]⟩
      | [es] => return ⟨es⟩
      | _ => failure
    | _ => failure

end Document

/-- The program a YAML text holds. -/
def readProgram (text : List Char) : Option Program := do
  let d ← Document.read text
  let aliases := aliasFactor * (d.root.elim 1 Node.parts)
  (d.program.run aliases).map Prod.fst

end OverDelimited.Yaml
