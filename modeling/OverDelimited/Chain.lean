import OverDelimited.Expr

/-!
# Delimiter chains

A host parser with a one-character delimiter reads a literal between longer delimiter runs as a
chain of tagged literals: for three delimiters around a body, `tagged (tagged "" body) ""`.  Each
further pair of delimiters adds one layer without text on either side of the body.  The closing
side is found as layers around the body, the opening side as layers inside the body's tag.

`Tagged.resolve` unwinds the closing side, asks for as many layers on the opening side, and gives
back the tag in front of the run, if there is one, and the body.  `Tagged.spine` does so for a node
and all closing layers below it in one walk.  `chain` builds what a host parser reads.

This is the chain resolver of the specification, sections 4.1 and 10.3.  A tag that would start a
chain of its own makes no match: section 9 leaves this open and section 10.3 decides it.  Chains are
built as in section 10.12.
-/

namespace OverDelimited

/-- A tagged literal taken apart. -/
structure Tagged where
  tag : Expr
  literal : Literal Expr

/-- The expression a tagged literal stands for. -/
def Tagged.toExpr (n : Tagged) : Expr :=
  .tagged n.tag n.literal

/-- An over-delimited literal: the tag in front of its delimiter run, its body, and how many layers
close it. -/
structure Match where
  tag : Option Expr
  literal : Literal Expr
  depth : Nat

/-! ### The two sides of a chain -/

/-- The literals of the closing layers of a tagged literal, outermost first, and the node whose
literal is the body. -/
def unwind : Expr → Literal Expr → List (Literal Expr) × Tagged
  | .tagged tag inner, l =>
    if l.isTrivial then
      let unwound := unwind tag inner
      (l :: unwound.1, unwound.2)
    else ([], ⟨.tagged tag inner, l⟩)
  | tag, l => ([], ⟨tag, l⟩)

/-- The first pair of an opening run: a bare literal without text, or one with the tag of the run
in front of it.  A tag is refused if it ends in delimiters that still belong to the run, or if it
is a tagged literal in front of which another run is open. -/
def firstPair : Expr → Option (Option Expr)
  | .template l => if l.isTrivial then some none else none
  | .tagged (.tagged tag inner) l =>
    if l.isTrivial && !inner.isTrivial && (firstPair tag).isNone then
      some (some (.tagged tag inner))
    else none
  | .tagged tag l => if l.isTrivial && !tag.isTrivialLiteral then some (some tag) else none
  | _ => none

/-- Crosses the given number of opening layers, which then must end in the first pair. -/
def balance : Nat → Expr → Option (Option Expr)
  | 0, e => firstPair e
  | n + 1, .tagged tag l => if l.isTrivial then balance n tag else none
  | _ + 1, _ => none

/-- The first pair that lies deepest below at most `limit - 1` opening layers, with the number of
layers above it. -/
def deepestPair : Nat → Expr → Option (Nat × Option Expr)
  | 0, _ => none
  | limit + 1, e =>
    let below :=
      match e with
      | .tagged tag l => if l.isTrivial then deepestPair limit tag else none
      | _ => none
    match below with
    | some (layers, tag) => some (layers + 1, tag)
    | none => (firstPair e).map fun tag => (0, tag)

namespace Tagged

/-! ### Resolving -/

/-- The over-delimited literal a node stands for, if its two sides balance. -/
def resolve (n : Tagged) : Option Match :=
  match unwind n.tag n.literal with
  | ([], _) => none
  | (_ :: layers, payload) =>
    (balance layers.length payload.tag).map fun tag =>
      ⟨tag, payload.literal, layers.length + 1⟩

/-- The node that lies the given number of layers below. -/
def below : Nat → Expr → Literal Expr → Tagged
  | n + 1, .tagged tag inner, _ => below n tag inner
  | _, tag, l => ⟨tag, l⟩

/-- Where the walk along the closing layers of a node ends. -/
structure Stop where
  /-- The literals of the layers passed over, outermost first. -/
  passed : List (Literal Expr)
  /-- The node the walk stops at. -/
  node : Tagged
  /-- What that node resolves to. -/
  resolution : Option Match

/-- How many layers were passed over. -/
def Stop.offset (s : Stop) : Nat :=
  s.passed.length

/-- Stops at the outermost closing layer that resolves, or else at the body's node. -/
def spine (n : Tagged) : Stop :=
  let unwound := unwind n.tag n.literal
  match deepestPair unwound.1.length unwound.2.tag with
  | some (layers, tag) =>
    let offset := unwound.1.length - (layers + 1)
    ⟨unwound.1.take offset, below offset n.tag n.literal,
      some ⟨tag, unwound.2.literal, layers + 1⟩⟩
  | none => ⟨unwound.1, unwound.2, none⟩

end Tagged

/-! ### Building -/

/-- The opening side of a run of `pairs` pairs. -/
def opening (tag : Option Expr) : Nat → Expr
  | 0 | 1 =>
    match tag with
    | some tag => .tagged tag .trivial
    | none => .template .trivial
  | pairs + 2 => .tagged (opening tag (pairs + 1)) .trivial

/-- A delimiter run that no host parser hands over as one literal. -/
structure RunError where
  delimiters : Nat
deriving DecidableEq, Repr

/-- The wording of a run error. -/
def RunError.message (e : RunError) : String :=
  "over-delimited literals use an odd run of at least three delimiters, got " ++
    toString e.delimiters

/-- The chain for a literal between two runs of delimiters, with a tag in front or without. -/
def chain (tag : Option Expr) (delimiters : Nat) (l : Literal Expr) : Except RunError Expr :=
  if 3 ≤ delimiters ∧ delimiters % 2 = 1 then
    let pairs := delimiters / 2
    .ok (Expr.close pairs (.tagged (opening tag pairs) l))
  else .error ⟨delimiters⟩

/-! ### Parts are smaller -/

theorem sizeOf_unwind (e : Expr) (l : Literal Expr) :
    sizeOf (unwind e l).2.tag + sizeOf (unwind e l).2.literal ≤ sizeOf e + sizeOf l := by
  fun_induction unwind e l with
  | case1 tag inner l h unwound ih =>
    simp only [Expr.tagged.sizeOf_spec, unwound]
    omega
  | case2 tag inner l h => exact Nat.le_refl _
  | case3 e l h => exact Nat.le_refl _

theorem sizeOf_firstPair {e t : Expr} (h : firstPair e = some (some t)) : sizeOf t < sizeOf e := by
  unfold firstPair at h
  split at h
  · split at h <;> simp at h
  · split at h
    · simp only [Option.some.injEq] at h
      subst h
      simp only [Expr.tagged.sizeOf_spec]
      omega
    · simp at h
  · split at h
    · simp only [Option.some.injEq] at h
      subst h
      simp only [Expr.tagged.sizeOf_spec]
      omega
    · simp at h
  · simp at h

theorem sizeOf_deepestPair {limit : Nat} {e t : Expr} {layers : Nat}
    (h : deepestPair limit e = some (layers, some t)) : sizeOf t < sizeOf e := by
  induction limit generalizing e layers with
  | zero => simp [deepestPair] at h
  | succ limit ih =>
    cases e with
    | tagged tag l =>
      simp only [deepestPair] at h
      split at h
      · next layers' tag' hb =>
        simp only [Option.some.injEq, Prod.mk.injEq] at h
        obtain ⟨-, rfl⟩ := h
        split at hb
        · have := ih hb
          simp only [Expr.tagged.sizeOf_spec]
          omega
        · simp at hb
      · simp only [Option.map_eq_some_iff, Prod.mk.injEq] at h
        obtain ⟨tag', hp, -, rfl⟩ := h
        exact sizeOf_firstPair hp
    | _ =>
      simp only [deepestPair, Option.map_eq_some_iff, Prod.mk.injEq] at h
      obtain ⟨tag', hp, -, rfl⟩ := h
      exact sizeOf_firstPair hp

end OverDelimited
