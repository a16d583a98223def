import OverDelimited.Datum
import OverDelimited.Expr

/-!
# Programs from data

A node is read from a record, by the names of its fields, or from a list, by their order.  Keys
that name no field are passed over; a field given twice, or a required field left out, is an error.
The kind of an expression is named by its `type`, wherever among the keys that stands, or by the
first item of a list.  Literals are checked to interleave as they are read (specification,
section 10.2).
-/

namespace OverDelimited

/-! ### Errors -/

/-- Why data is not a program. -/
inductive DecodeError where
  | shape (error : ShapeError)
  | missing (field : String)
  | duplicate (field : String)
  | unknownKind (name : String)
  /-- A value of another sort than the place asks for. -/
  | mismatch
deriving DecidableEq, Repr

/-! ### Kinds and fields -/

/-- The kinds of expression. -/
inductive Kind where
  | identifier
  | string
  | template
  | tagged
  | call
  | member
  | array
deriving DecidableEq, Repr

/-- What a field holds. -/
inductive Role where
  | text
  /-- Text that may be absent. -/
  | cooked
  | expr
  | exprs
  | segments
  | literal
deriving DecidableEq, Repr

/-- A field of a node: its name and what it holds. -/
structure Field where
  name : String
  role : Role
deriving DecidableEq, Repr

namespace Kind

/-- All kinds, in the order that numbers them. -/
def all : List Kind :=
  [identifier, string, template, tagged, call, member, array]

/-- The name a kind is written with. -/
def name : Kind → String
  | identifier => "Identifier"
  | string => "StringLiteral"
  | template => "TemplateLiteral"
  | tagged => "TaggedTemplate"
  | call => "Call"
  | member => "Member"
  | array => "Array"

/-- The fields of a kind, in order. -/
def fields : Kind → List Field
  | identifier => [⟨"name", .text⟩]
  | string => [⟨"value", .text⟩]
  | template => [⟨"segments", .segments⟩, ⟨"placeholders", .exprs⟩]
  | tagged => [⟨"tag", .expr⟩, ⟨"literal", .literal⟩]
  | call => [⟨"callee", .expr⟩, ⟨"arguments", .exprs⟩]
  | member => [⟨"object", .expr⟩, ⟨"property", .text⟩]
  | array => [⟨"elements", .exprs⟩]

/-- The kind of the given name. -/
def ofName? (s : String) : Option Kind :=
  all.find? fun kind => kind.name == s

/-- The kind a datum names, by its name or its number. -/
def ofDatum : Datum → Except DecodeError Kind
  | .text s =>
    match ofName? s with
    | some kind => .ok kind
    | none => .error (.unknownKind s)
  | .natural n =>
    match all[n]? with
    | some kind => .ok kind
    | none => .error .mismatch
  | _ => .error .mismatch

/-- The values of the entries that name a kind. -/
def entries (es : List (Key × Datum)) : List Datum :=
  (es.filter fun e => e.1 == .text "type").map Prod.snd

/-- The kind a record names. -/
def ofEntries (es : List (Key × Datum)) : Except DecodeError Kind :=
  match entries es with
  | [] => .error (.missing "type")
  | [d] => ofDatum d
  | _ => .error (.duplicate "type")

end Kind

namespace Field

/-- The fields of a text segment. -/
def ofSegment : List Field :=
  [⟨"raw", .text⟩, ⟨"cooked", .cooked⟩]

/-- The fields of a literal that is no expression of its own. -/
def ofLiteral : List Field :=
  [⟨"segments", .segments⟩, ⟨"placeholders", .exprs⟩]

/-- The field a key names, if it names one. -/
def named? (fields : List Field) : Key → Except DecodeError (Option Field)
  | .text s => .ok (fields.find? fun f => f.name == s)
  | .index i => .ok fields[i]?
  | _ => .error .mismatch

end Field

/-! ### Filling in fields -/

/-- The fields of a node read so far.  No node has two fields of one role. -/
structure Slots where
  text : Option String := none
  cooked : Option (Option String) := none
  expr : Option Expr := none
  exprs : Option (List Expr) := none
  segments : Option (List Segment) := none
  literal : Option (Literal Expr) := none

namespace Slots

/-- Whether the field of a role has been read. -/
def has (s : Slots) : Role → Bool
  | .text => s.text.isSome
  | .cooked => s.cooked.isSome
  | .expr => s.expr.isSome
  | .exprs => s.exprs.isSome
  | .segments => s.segments.isSome
  | .literal => s.literal.isSome

/-- A field that must be there. -/
def require {α : Type} (field : String) : Option α → Except DecodeError α
  | some a => .ok a
  | none => .error (.missing field)

/-- The segment of the fields read. -/
def toSegment (s : Slots) : Except DecodeError Segment := do
  let raw ← require "raw" s.text
  .ok ⟨raw, s.cooked.getD none⟩

/-- The literal of the fields read; its parts must interleave. -/
def toLiteral (s : Slots) : Except DecodeError (Literal Expr) := do
  let segments ← require "segments" s.segments
  (Literal.ofParts segments (s.exprs.getD [])).mapError .shape

/-- The expression of the fields read. -/
def toExpr (s : Slots) : Kind → Except DecodeError Expr
  | .identifier => do .ok (.identifier (← require "name" s.text))
  | .string => do .ok (.string (← require "value" s.text))
  | .template => do .ok (.template (← s.toLiteral))
  | .tagged => do
    let tag ← require "tag" s.expr
    .ok (.tagged tag (← require "literal" s.literal))
  | .call => do .ok (.call (← require "callee" s.expr) (s.exprs.getD []))
  | .member => do
    let object ← require "object" s.expr
    .ok (.member object (← require "property" s.text))
  | .array => .ok (.array (s.exprs.getD []))

end Slots

/-- The wording of an error, for those that have one of their own. -/
def DecodeError.message? : DecodeError → Option String
  | .shape error => some error.message
  | .missing field => some ("missing field `" ++ field ++ "`")
  | .duplicate field => some ("duplicate field `" ++ field ++ "`")
  | .unknownKind name =>
    some ("unknown variant `" ++ name ++ "`, expected one of " ++
      ", ".intercalate (Kind.all.map fun kind => "`" ++ kind.name ++ "`"))
  | .mismatch => none

/-- In a list a required field cannot be told from a list that ends too soon. -/
def DecodeError.inList : DecodeError → DecodeError
  | .missing _ => .mismatch
  | e => e

/-! ### Reading -/

namespace Datum

mutual
/-- Reads an expression. -/
def toExpr : Datum → Except DecodeError Expr
  | record entries =>
    match Kind.ofEntries entries with
    | .error e => .error e
    | .ok kind =>
      match fillEntries kind.fields {} entries with
      | .error e => .error e
      | .ok slots => slots.toExpr kind
  | list [] => .error (.missing "type")
  | list (first :: items) =>
    match Kind.ofDatum first with
    | .error e => .error e
    | .ok kind =>
      match fillItems kind.fields {} items with
      | .error e => .error e
      | .ok slots => (slots.toExpr kind).mapError DecodeError.inList
  | _ => .error .mismatch

/-- Reads a list of expressions. -/
def toExprs : List Datum → Except DecodeError (List Expr)
  | [] => .ok []
  | d :: rest =>
    match toExpr d with
    | .error e => .error e
    | .ok e => (toExprs rest).map (e :: ·)

/-- Reads a literal that is no expression of its own. -/
def toLiteral : Datum → Except DecodeError (Literal Expr)
  | record entries =>
    match fillEntries Field.ofLiteral {} entries with
    | .error e => .error e
    | .ok slots => slots.toLiteral
  | list items =>
    match fillItems Field.ofLiteral {} items with
    | .error e => .error e
    | .ok slots => slots.toLiteral.mapError DecodeError.inList
  | _ => .error .mismatch

/-- Reads a text segment. -/
def toSegment : Datum → Except DecodeError Segment
  | record entries =>
    match fillEntries Field.ofSegment {} entries with
    | .error e => .error e
    | .ok slots => slots.toSegment
  | list items =>
    match fillItems Field.ofSegment {} items with
    | .error e => .error e
    | .ok slots => slots.toSegment.mapError DecodeError.inList
  | _ => .error .mismatch

/-- Reads a list of text segments. -/
def toSegments : List Datum → Except DecodeError (List Segment)
  | [] => .ok []
  | d :: rest =>
    match toSegment d with
    | .error e => .error e
    | .ok s => (toSegments rest).map (s :: ·)

/-- Reads the entries of a record into the fields they name. -/
def fillEntries (fields : List Field) (slots : Slots) :
    List (Key × Datum) → Except DecodeError Slots
  | [] => .ok slots
  | (key, d) :: rest =>
    match Field.named? fields key with
    | .error e => .error e
    | .ok none => fillEntries fields slots rest
    | .ok (some field) =>
      if slots.has field.role then .error (.duplicate field.name)
      else
        match field.role, d with
        | .text, text s => fillEntries fields { slots with text := some s } rest
        | .cooked, null => fillEntries fields { slots with cooked := some none } rest
        | .cooked, text s => fillEntries fields { slots with cooked := some (some s) } rest
        | .expr, d =>
          match toExpr d with
          | .error e => .error e
          | .ok e => fillEntries fields { slots with expr := some e } rest
        | .exprs, list items =>
          match toExprs items with
          | .error e => .error e
          | .ok es => fillEntries fields { slots with exprs := some es } rest
        | .segments, list items =>
          match toSegments items with
          | .error e => .error e
          | .ok ss => fillEntries fields { slots with segments := some ss } rest
        | .literal, d =>
          match toLiteral d with
          | .error e => .error e
          | .ok l => fillEntries fields { slots with literal := some l } rest
        | _, _ => .error .mismatch

/-- Reads the items of a list into the fields, in order. -/
def fillItems (fields : List Field) (slots : Slots) : List Datum → Except DecodeError Slots
  | [] => .ok slots
  | d :: rest =>
    match fields with
    | [] => .error .mismatch
    | field :: fields =>
      match field.role, d with
      | .text, text s => fillItems fields { slots with text := some s } rest
      | .cooked, null => fillItems fields { slots with cooked := some none } rest
      | .cooked, text s => fillItems fields { slots with cooked := some (some s) } rest
      | .expr, d =>
        match toExpr d with
        | .error e => .error e
        | .ok e => fillItems fields { slots with expr := some e } rest
      | .exprs, list items =>
        match toExprs items with
        | .error e => .error e
        | .ok es => fillItems fields { slots with exprs := some es } rest
      | .segments, list items =>
        match toSegments items with
        | .error e => .error e
        | .ok ss => fillItems fields { slots with segments := some ss } rest
      | .literal, d =>
        match toLiteral d with
        | .error e => .error e
        | .ok l => fillItems fields { slots with literal := some l } rest
      | _, _ => .error .mismatch
end

/-! ### Programs -/

/-- Whether an expression names its kind by a number. -/
def numbersKind : Datum → Bool
  | record entries => (Kind.entries entries).any fun | natural _ => true | _ => false
  | list (natural _ :: _) => true
  | _ => false

/-- Reads an expression that stands in no other, which must name its kind by a text. -/
def toOuterExpr (d : Datum) : Except DecodeError Expr :=
  if d.numbersKind then .error .mismatch else d.toExpr

/-- Reads the body of a program. -/
def toBody : List Datum → Except DecodeError (List Expr)
  | [] => .ok []
  | d :: rest =>
    match d.toOuterExpr with
    | .error e => .error e
    | .ok e => (toBody rest).map (e :: ·)

/-- Reads the list a program has as its body, which must be readable to the given depth. -/
def toProgram (limit : Nat) (body : Datum) : Except DecodeError Program :=
  match body with
  | list items =>
    if body.isReadable limit then (toBody items).map Program.mk else .error .mismatch
  | _ => .error .mismatch

end Datum

/-- The values under the key of a program's body, unless some key cannot be read. -/
def Program.bodies : List (Key × Datum) → Except DecodeError (List Datum)
  | [] => .ok []
  | (.text name, d) :: rest =>
    if name = "body" then (bodies rest).map (d :: ·) else bodies rest
  | _ => .error .mismatch

/-- Reads a program whose data is nested at most `limit` levels deep.  What stands under other keys
is not looked at. -/
def Program.ofDatum (limit : Nat) : Datum → Except DecodeError Program
  | .record entries =>
    match bodies entries with
    | .error e => .error e
    | .ok [] => .ok ⟨[]⟩
    | .ok [body] => body.toProgram (limit - 1)
    | .ok _ => .error (.duplicate "body")
  | .list [] => .ok ⟨[]⟩
  | .list [body] => body.toProgram (limit - 1)
  | _ => .error .mismatch

end OverDelimited
