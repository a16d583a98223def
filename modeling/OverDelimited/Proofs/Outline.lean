import OverDelimited.Proofs.FixedPoint

/-!
# Outlines

Whether a tagged literal resolves depends on very little of it: how the tag of its body ends, and
how many layers without text close the body.  An outline keeps just that.  It is computed from
the inside out, one literal after the other, and an expression resolves exactly if its outline is
that of a chain.
-/

namespace OverDelimited

/-- How an expression ends, as far as the literals behind it can tell. -/
inductive Ending where
  /-- In what can be the tag of a run. -/
  | tag
  /-- In an opening run: its first pair with the given number of layers around it. -/
  | run (layers : Nat)
  /-- In neither. -/
  | blocked
deriving DecidableEq

namespace Ending

def close : Ending → Ending
  | tag => run 0
  | run layers => run (layers + 1)
  | blocked => blocked

/-- The ending with a literal behind it.  A literal with text ends an opening run; behind a single
pair it is the body of a chain that one more literal without text would close, so that it cannot be
the tag of a run. -/
def behind (empty : Bool) (s : Ending) : Ending :=
  if empty then s.close else if s = run 0 then blocked else tag

end Ending

/-- What the literals behind an expression see of it. -/
structure Outline where
  ending : Ending
  /-- For a tagged literal, how many layers close its body and how the body's tag ends. -/
  closing : Option (Nat × Ending)
deriving DecidableEq

namespace Outline

def plain : Outline :=
  ⟨.tag, none⟩

def bare (empty : Bool) : Outline :=
  ⟨if empty then .run 0 else .tag, none⟩

def behind (empty : Bool) (o : Outline) : Outline :=
  ⟨o.ending.behind empty,
    match empty, o.closing with
    | true, some (layers, s) => some (layers + 1, s)
    | _, _ => some (0, o.ending)⟩

/-- As many layers close the body as open it. -/
def isChain (o : Outline) : Bool :=
  match o.closing with
  | some (closed + 1, .run opened) => closed == opened
  | _ => false

end Outline

def Expr.outline : Expr → Outline
  | .template l => .bare l.isTrivial
  | .tagged tag l => tag.outline.behind l.isTrivial
  | _ => .plain

/-! ### Opening runs -/

theorem Ending.behind_false_ne_run (s : Ending) (k : Nat) : s.behind false ≠ .run k := by
  unfold Ending.behind
  split
  · contradiction
  · split <;> nofun

theorem Ending.behind_true (s : Ending) : s.behind true = s.close := rfl

theorem Ending.close_ne_run_zero {s : Ending} (h : s ≠ .tag) : s.close ≠ .run 0 := by
  cases s with
  | tag => exact absurd rfl h
  | run layers => nofun
  | blocked => nofun

theorem ending_tagged (tag : Expr) (l : Literal Expr) :
    (Expr.tagged tag l).outline.ending = tag.outline.ending.behind l.isTrivial := rfl

theorem firstPair_isSome_iff (e : Expr) :
    (firstPair e).isSome = true ↔ e.outline.ending = .run 0 := by
  fun_induction firstPair e with
  | case1 l hl => simp [Expr.outline, Outline.bare, hl]
  | case2 l hl => simp [Expr.outline, Outline.bare, hl]
  | case3 tag inner l h ih =>
    simp only [Bool.and_eq_true, Bool.not_eq_true', Option.isNone_iff_eq_none] at h
    obtain ⟨⟨hl, hinner⟩, htag⟩ := h
    have hne : tag.outline.ending ≠ .run 0 := by simpa [htag] using ih
    simp [ending_tagged, Ending.behind, hl, hinner, hne, Ending.close]
  | case4 tag inner l h ih =>
    rw [ending_tagged]
    simp only [Option.isSome_none, Bool.false_eq_true, false_iff]
    cases hl : l.isTrivial with
    | false => exact Ending.behind_false_ne_run _ 0
    | true =>
      rw [Ending.behind_true, ending_tagged]
      apply Ending.close_ne_run_zero
      cases hinner : inner.isTrivial with
      | true => cases tag.outline.ending <;> simp [Ending.behind, Ending.close]
      | false =>
        -- the tag of the tag opens a run of its own
        have hsome : (firstPair tag).isSome = true := by
          cases hp : firstPair tag <;> simp_all
        simp [Ending.behind, ih.mp hsome]
  | case5 tag l htag h =>
    simp only [Bool.and_eq_true, Bool.not_eq_true'] at h
    cases tag <;>
      simp_all [Expr.outline, Expr.isTrivialLiteral, Outline.behind, Outline.bare, Outline.plain,
        Ending.behind, Ending.close]
  | case6 tag l htag h =>
    rw [ending_tagged]
    simp only [Option.isSome_none, Bool.false_eq_true, false_iff]
    cases hl : l.isTrivial with
    | false => exact Ending.behind_false_ne_run _ 0
    | true =>
      have htrivial : tag.isTrivialLiteral = true := by simpa [hl] using h
      cases tag with
      | template m =>
        simp only [Expr.isTrivialLiteral] at htrivial
        simp [Expr.outline, Outline.bare, htrivial, Ending.behind, Ending.close]
      | _ => cases htrivial
  | case7 e h1 h2 h3 => cases e <;> simp_all [Expr.outline, Outline.plain]

theorem balance_isSome_iff (k : Nat) (e : Expr) :
    (balance k e).isSome = true ↔ e.outline.ending = .run k := by
  induction k generalizing e with
  | zero => exact firstPair_isSome_iff e
  | succ k ih =>
    cases e with
    | tagged tag l =>
      have htag := ih tag
      cases hl : l.isTrivial with
      | true =>
        cases hs : tag.outline.ending <;>
          simp_all [balance, ending_tagged, Ending.behind, Ending.close]
      | false =>
        simp only [balance, hl, ending_tagged, Bool.false_eq_true, if_false, Option.isSome_none,
          false_iff]
        exact Ending.behind_false_ne_run _ _
    | template l => cases hl : l.isTrivial <;> simp [balance, Expr.outline, Outline.bare, hl]
    | _ => simp [balance, Expr.outline, Outline.plain]

/-! ### Chains -/

theorem closing_tagged (tag : Expr) (l : Literal Expr) :
    (Expr.tagged tag l).outline.closing =
      some ((unwind tag l).1.length, (unwind tag l).2.tag.outline.ending) := by
  fun_induction unwind tag l with
  | case1 tag inner l hl unwound ih =>
    show ((Expr.tagged tag inner).outline.behind l.isTrivial).closing = _
    simp only [Outline.behind, hl, ih, List.length_cons, unwound]
  | case2 tag inner l hl =>
    rw [Bool.not_eq_true] at hl
    show ((Expr.tagged tag inner).outline.behind l.isTrivial).closing = _
    simp only [Outline.behind, hl, List.length_nil]
  | case3 tag l h =>
    cases tag with
    | tagged t m => exact absurd rfl (h t m)
    | _ =>
      cases hl : l.isTrivial <;>
        simp [Expr.outline, Outline.behind, Outline.bare, Outline.plain, hl]

theorem resolves_eq_isChain (e : Expr) : e.resolves = e.outline.isChain := by
  cases e with
  | tagged tag l =>
    rw [Outline.isChain, closing_tagged, Expr.resolves, Tagged.resolve]
    split
    · next hu => simp only [hu, List.length_nil, Option.isSome_none]
    · next layer layers payload hu =>
      have hbal := balance_isSome_iff layers.length payload.tag
      rw [Option.isSome_map, Bool.eq_iff_iff, hbal]
      simp only [hu, List.length_cons]
      cases payload.tag.outline.ending with
      | run opened =>
        rw [Ending.run.injEq, beq_iff_eq]
        exact eq_comm
      | tag => simp
      | blocked => simp
  | _ => rfl

end OverDelimited
