import OverDelimited.Margin

/-!
# Paths to nodes

A path names a node by the steps that lead to it from the root.  A fault is a malformed literal
together with the path of the node that holds it (specification, section 10.5).
-/

namespace OverDelimited

/-- One step from a node to one of its children. -/
inductive Step where
  | body (index : Nat)
  | tag
  | placeholder (index : Nat)
  | callee
  | argument (index : Nat)
  | object
  | element (index : Nat)
deriving DecidableEq, Repr

/-- The spelling of a step. -/
def Step.text : Step → String
  | body i => "body[" ++ toString i ++ "]"
  | tag => "tag"
  | placeholder i => "placeholders[" ++ toString i ++ "]"
  | callee => "callee"
  | argument i => "arguments[" ++ toString i ++ "]"
  | object => "object"
  | element i => "elements[" ++ toString i ++ "]"

/-- The steps from the root to a node. -/
abbrev Path := List Step

/-- The spelling of a path: its steps with dots between them, the root by a name of its own. -/
def Path.text : Path → String
  | [] => "<root>"
  | steps => ".".intercalate (steps.map Step.text)

/-- A malformed literal and where it stands. -/
structure Fault where
  path : Path
  cause : Malformed
deriving DecidableEq, Repr

namespace Fault

/-- The fault as seen from the node that the step leads away from. -/
def under (step : Step) (f : Fault) : Fault :=
  ⟨step :: f.path, f.cause⟩

/-- The fault as seen from the given number of layers above. -/
def underTags (layers : Nat) (f : Fault) : Fault :=
  ⟨List.replicate layers Step.tag ++ f.path, f.cause⟩

/-- The wording of a fault. -/
def message (f : Fault) : String :=
  f.path.text ++ ": " ++ f.cause.message

end Fault

end OverDelimited
