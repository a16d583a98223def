import OverDelimited.Expr
import OverDelimited.Tree

/-!
# Programs as written trees

Every node is a record that names its kind first and then all its fields, in a fixed order.  An
absent cooked text is written as nothing; lists are written even when they are empty.
-/

namespace OverDelimited

/-- The record of a segment. -/
def Segment.toTree (s : Segment) : Tree :=
  .record [("raw", .text s.raw), ("cooked", s.cooked.elim .null .text)]

namespace Expr

mutual
/-- The record of an expression. -/
def toTree : Expr → Tree
  | identifier name => .record [("type", .text "Identifier"), ("name", .text name)]
  | string value => .record [("type", .text "StringLiteral"), ("value", .text value)]
  | template l =>
    .record [("type", .text "TemplateLiteral"),
      ("segments", .list (l.segments.map Segment.toTree)), ("placeholders", .list (holeTrees l))]
  | tagged tag l =>
    .record [("type", .text "TaggedTemplate"), ("tag", toTree tag),
      ("literal", .record [("segments", .list (l.segments.map Segment.toTree)),
        ("placeholders", .list (holeTrees l))])]
  | call callee arguments =>
    .record [("type", .text "Call"), ("callee", toTree callee),
      ("arguments", .list (toTrees arguments))]
  | member object property =>
    .record [("type", .text "Member"), ("object", toTree object), ("property", .text property)]
  | array elements => .record [("type", .text "Array"), ("elements", .list (toTrees elements))]

/-- The records of the placeholders of a literal. -/
def holeTrees : Literal Expr → List Tree
  | .text _ => []
  | .hole _ p rest => toTree p :: holeTrees rest

/-- The records of a list of expressions. -/
def toTrees : List Expr → List Tree
  | [] => []
  | e :: rest => toTree e :: toTrees rest
end

end Expr

/-- The record of a literal. -/
def Literal.toTree (l : Literal Expr) : Tree :=
  .record [("segments", .list (l.segments.map Segment.toTree)),
    ("placeholders", .list (Expr.holeTrees l))]

/-- The record of a program. -/
def Program.toTree (p : Program) : Tree :=
  .record [("body", .list (Expr.toTrees p.body))]

end OverDelimited
