import OverDelimited.Chain
import OverDelimited.Path

/-!
# Collapsing over-delimited literals

`Expr.collapse` replaces every over-delimited literal of an expression by its normalized body,
tagged with the tag recovered from the chain; closing layers in excess of the opening ones stay
around it.  The first malformed literal ends the pass.  `Expr.diagnose` makes the same walk without
changing anything and lists every malformed literal.

Both walks go from a node to its children in reading order: a tag before the placeholders of its
literal, a callee before its arguments.  Below a collapsed chain the recovered tag and the body's
placeholders count as children of the node the walk stopped at.

This is the rewriting pass of the specification, section 10.5.
-/

namespace OverDelimited

/-! ### Sizes along the walk -/

theorem Literal.sizeOf_placeholders (l : Literal Expr) : sizeOf l.placeholders ≤ sizeOf l := by
  induction l with
  | text s => simp [placeholders]
  | hole s p rest ih => simp only [placeholders, List.cons.sizeOf_spec, hole.sizeOf_spec]; omega

namespace Tagged

theorem sizeOf_spine_none {tag : Expr} {l : Literal Expr} {passed : List (Literal Expr)}
    {node : Tagged} (h : spine ⟨tag, l⟩ = ⟨passed, node, none⟩) :
    sizeOf node.tag + sizeOf node.literal ≤ sizeOf tag + sizeOf l := by
  simp only [spine] at h
  split at h
  · simp at h
  · simp only [Stop.mk.injEq] at h
    obtain ⟨-, rfl, -⟩ := h
    exact sizeOf_unwind tag l

theorem sizeOf_spine_some {tag : Expr} {l : Literal Expr} {passed : List (Literal Expr)}
    {node : Tagged} {found : Option Expr} {body : Literal Expr} {depth : Nat}
    (h : spine ⟨tag, l⟩ = ⟨passed, node, some ⟨found, body, depth⟩⟩) :
    sizeOf body ≤ sizeOf tag + sizeOf l ∧
      ∀ t, found = some t → sizeOf t < sizeOf tag + sizeOf l := by
  have hu := sizeOf_unwind tag l
  simp only [spine] at h
  split at h
  · next layers found hd =>
    simp only [Stop.mk.injEq, Option.some.injEq, Match.mk.injEq] at h
    obtain ⟨-, -, rfl, rfl, -⟩ := h
    refine ⟨by omega, fun t ht => ?_⟩
    subst ht
    have := sizeOf_deepestPair hd
    omega
  · simp at h

end Tagged

/-! ### Collapsing -/

/-- Puts layers back around an expression, the first of them outermost. -/
def wrap (layers : List (Literal Expr)) (e : Expr) : Expr :=
  layers.foldr (fun l e => .tagged e l) e

mutual
/-- The expression with every over-delimited literal collapsed. -/
def Expr.collapse : Expr → Except Fault Expr
  | .identifier name => .ok (.identifier name)
  | .string value => .ok (.string value)
  | .template l => do
    let ps ← collapseAll .placeholder 0 l.placeholders
    .ok (.template (l.withPlaceholders ps))
  | .tagged tag l =>
    match _h : Tagged.spine ⟨tag, l⟩ with
    | ⟨passed, node, none⟩ => Except.mapError (Fault.underTags passed.length) do
      let tag' ← node.tag.collapse.mapError (Fault.under .tag)
      let ps ← collapseAll .placeholder 0 node.literal.placeholders
      .ok (wrap passed (.tagged tag' (node.literal.withPlaceholders ps)))
    | ⟨passed, _, some ⟨none, body, _⟩⟩ => Except.mapError (Fault.underTags passed.length) do
      let body' ← body.normalize.mapError (Fault.mk [])
      let ps ← collapseAll .placeholder 0 body.placeholders
      .ok (wrap passed (.template (body'.withPlaceholders ps)))
    | ⟨passed, _, some ⟨some t, body, _⟩⟩ => Except.mapError (Fault.underTags passed.length) do
      let body' ← body.normalize.mapError (Fault.mk [])
      let tag' ← t.collapse.mapError (Fault.under .tag)
      let ps ← collapseAll .placeholder 0 body.placeholders
      .ok (wrap passed (.tagged tag' (body'.withPlaceholders ps)))
  | .call callee arguments => do
    let callee' ← callee.collapse.mapError (Fault.under .callee)
    let arguments' ← collapseAll .argument 0 arguments
    .ok (.call callee' arguments')
  | .member object property => do
    let object' ← object.collapse.mapError (Fault.under .object)
    .ok (.member object' property)
  | .array elements => do
    let elements' ← collapseAll .element 0 elements
    .ok (.array elements')
termination_by e => sizeOf e
decreasing_by
  · have := l.sizeOf_placeholders
    simp_wf
    omega
  · have := Tagged.sizeOf_spine_none _h
    simp_wf
    omega
  · have := Tagged.sizeOf_spine_none _h
    have := node.literal.sizeOf_placeholders
    simp_wf
    omega
  · have := (Tagged.sizeOf_spine_some _h).1
    have := body.sizeOf_placeholders
    simp_wf
    omega
  · have := (Tagged.sizeOf_spine_some _h).2 t rfl
    simp_wf
    omega
  · have := (Tagged.sizeOf_spine_some _h).1
    have := body.sizeOf_placeholders
    simp_wf
    omega
  all_goals
    simp_wf
    try omega

/-- Collapses the expressions of a list, which are children under the given kind of step, counted
from the given index. -/
def collapseAll (step : Nat → Step) : Nat → List Expr → Except Fault (List Expr)
  | _, [] => .ok []
  | i, e :: es => do
    let e' ← e.collapse.mapError (Fault.under (step i))
    let es' ← collapseAll step (i + 1) es
    .ok (e' :: es')
termination_by _ es => sizeOf es
end

/-- The program with every over-delimited literal collapsed. -/
def Program.collapse (p : Program) : Except Fault Program :=
  (collapseAll .body 0 p.body).map Program.mk

/-! ### Diagnosing -/

/-- The fault of a body that cannot be normalized. -/
def bodyFaults (body : Literal Expr) : List Fault :=
  match body.normalize with
  | .ok _ => []
  | .error cause => [⟨[], cause⟩]

mutual
/-- Every malformed over-delimited literal of an expression, in the order of the walk. -/
def Expr.diagnose : Expr → List Fault
  | .identifier _ => []
  | .string _ => []
  | .template l => diagnoseAll .placeholder 0 l.placeholders
  | .tagged tag l =>
    match _h : Tagged.spine ⟨tag, l⟩ with
    | ⟨passed, node, none⟩ =>
      List.map (Fault.underTags passed.length)
        (node.tag.diagnose.map (Fault.under .tag) ++
          diagnoseAll .placeholder 0 node.literal.placeholders)
    | ⟨passed, _, some ⟨none, body, _⟩⟩ =>
      List.map (Fault.underTags passed.length)
        (bodyFaults body ++ diagnoseAll .placeholder 0 body.placeholders)
    | ⟨passed, _, some ⟨some t, body, _⟩⟩ =>
      List.map (Fault.underTags passed.length)
        (bodyFaults body ++ t.diagnose.map (Fault.under .tag) ++
          diagnoseAll .placeholder 0 body.placeholders)
  | .call callee arguments =>
    callee.diagnose.map (Fault.under .callee) ++ diagnoseAll .argument 0 arguments
  | .member object _ => object.diagnose.map (Fault.under .object)
  | .array elements => diagnoseAll .element 0 elements
termination_by e => sizeOf e
decreasing_by
  · have := l.sizeOf_placeholders
    simp_wf
    omega
  · have := Tagged.sizeOf_spine_none _h
    simp_wf
    omega
  · have := Tagged.sizeOf_spine_none _h
    have := node.literal.sizeOf_placeholders
    simp_wf
    omega
  · have := (Tagged.sizeOf_spine_some _h).1
    have := body.sizeOf_placeholders
    simp_wf
    omega
  · have := (Tagged.sizeOf_spine_some _h).2 t rfl
    simp_wf
    omega
  · have := (Tagged.sizeOf_spine_some _h).1
    have := body.sizeOf_placeholders
    simp_wf
    omega
  all_goals
    simp_wf
    try omega

/-- The malformed literals of a list of children. -/
def diagnoseAll (step : Nat → Step) : Nat → List Expr → List Fault
  | _, [] => []
  | i, e :: es => e.diagnose.map (Fault.under (step i)) ++ diagnoseAll step (i + 1) es
termination_by _ es => sizeOf es
end

/-- Every malformed over-delimited literal of a program. -/
def Program.diagnose (p : Program) : List Fault :=
  diagnoseAll .body 0 p.body

end OverDelimited
