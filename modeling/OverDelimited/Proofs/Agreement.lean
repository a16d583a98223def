import OverDelimited.Proofs.Walk

/-!
# Collapsing and diagnosing agree

Collapsing ends at the first malformed literal, diagnosing lists them all.  Seen through `errorOf`,
which forgets what a computation returns, the first is the head of the second.
-/

namespace OverDelimited

/-! ### Errors -/

/-- Why a computation failed, if it did. -/
def errorOf {ε α : Type} : Except ε α → Option ε
  | .ok _ => none
  | .error e => some e

section Errors

variable {α β ε ε' : Type}

theorem errorOf_mapError (f : ε → ε') (x : Except ε α) :
    errorOf (x.mapError f) = (errorOf x).map f := by
  cases x <;> rfl

theorem errorOf_map (f : α → β) (x : Except ε α) : errorOf (x.map f) = errorOf x := by
  cases x <;> rfl

theorem errorOf_bind {x : Except ε α} {g : α → Except ε β} {o : Option ε}
    (h : ∀ a, errorOf (g a) = o) : errorOf (x >>= g) = (errorOf x).or o := by
  cases x with
  | error e => rfl
  | ok a =>
    show errorOf (g a) = Option.or none o
    rw [h a, Option.none_or]

theorem errorOf_bind_ok (x : Except ε α) (f : α → β) :
    errorOf (x >>= fun a => .ok (f a)) = errorOf x := by
  cases x <;> rfl

theorem errorOf_eq_none_iff {x : Except ε α} : errorOf x = none ↔ ∃ a, x = .ok a := by
  cases x <;> simp [errorOf]

theorem errorOf_eq_some_iff {x : Except ε α} {e : ε} : errorOf x = some e ↔ x = .error e := by
  cases x <;> simp [errorOf]

theorem eq_ok_of_toOption {x : Except ε α} {a : α} (h : x.toOption = some a) : x = .ok a := by
  cases x with
  | error e => cases h
  | ok b => exact congrArg Except.ok (Option.some.inj h)

end Errors

/-! ### The two walks -/

theorem errorOf_collapseAll (step : Nat → Step) {es : List Expr} (i : Nat)
    (ih : ∀ e ∈ es, errorOf e.collapse = e.diagnose.head?) :
    errorOf (collapseAll step i es) = (diagnoseAll step i es).head? := by
  induction es generalizing i with
  | nil =>
    rw [collapseAll, diagnoseAll]
    rfl
  | cons e es ihes =>
    have he := ih e (List.mem_cons_self ..)
    have hes := ihes (i + 1) fun c hc => ih c (List.mem_cons_of_mem _ hc)
    rw [collapseAll, diagnoseAll, List.head?_append, List.head?_map, ← he, ← hes,
      ← errorOf_mapError]
    exact errorOf_bind fun e' => errorOf_bind_ok _ _

theorem errorOf_collapseLiteral {tag : Option Expr} {l : Literal Expr}
    (ihtag : ∀ t ∈ tag, errorOf t.collapse = t.diagnose.head?)
    (ih : ∀ p ∈ l.placeholders, errorOf p.collapse = p.diagnose.head?) :
    errorOf (collapseLiteral tag l) = (diagnoseLiteral tag l).head? := by
  have hps := errorOf_collapseAll .placeholder 0 ih
  cases tag with
  | none =>
    rw [collapseLiteral, diagnoseLiteral, List.nil_append, ← hps]
    exact errorOf_bind_ok _ _
  | some t =>
    rw [collapseLiteral, diagnoseLiteral, List.head?_append, List.head?_map, ← hps,
      ← ihtag t rfl, ← errorOf_mapError]
    exact errorOf_bind fun t' => errorOf_bind_ok _ _

theorem errorOf_collapse (e : Expr) : errorOf e.collapse = e.diagnose.head? := by
  induction e using Expr.walk_induction with
  | identifier name =>
    rw [Expr.collapse, Expr.diagnose]
    rfl
  | string value =>
    rw [Expr.collapse, Expr.diagnose]
    rfl
  | template l ih =>
    rw [collapse_template, diagnose_template]
    exact errorOf_collapseLiteral (fun t ht => absurd ht (Option.not_mem_none t)) ih
  | kept tag l hr ihtag ih =>
    rw [collapse_of_resolve_none hr, diagnose_of_resolve_none hr]
    exact errorOf_collapseLiteral (fun t ht => Option.some.inj ht ▸ ihtag) ih
  | replaced tag l r body d hr ihr ih =>
    have hlit := errorOf_collapseLiteral ihr ih
    rw [collapse_of_resolve_some hr, diagnose_of_resolve_some hr, List.head?_append, ← hlit]
    unfold bodyFaults
    cases hn : body.normalize with
    | error cause => rfl
    | ok body' =>
      have hps := placeholders_normalize hn
      show errorOf (collapseLiteral r body') = Option.or none (errorOf (collapseLiteral r body))
      rw [Option.none_or, hlit, ← diagnoseLiteral_congr r hps]
      exact errorOf_collapseLiteral ihr (hps ▸ ih)
  | call callee arguments ihcallee ih =>
    rw [Expr.collapse, Expr.diagnose, List.head?_append, List.head?_map, ← ihcallee,
      ← errorOf_collapseAll _ 0 ih, ← errorOf_mapError]
    exact errorOf_bind fun callee' => errorOf_bind_ok _ _
  | member object property ih =>
    rw [Expr.collapse, Expr.diagnose, List.head?_map, ← ih, ← errorOf_mapError]
    exact errorOf_bind_ok _ _
  | array elements ih =>
    rw [Expr.collapse, Expr.diagnose, ← errorOf_collapseAll _ 0 ih]
    exact errorOf_bind_ok _ _

theorem errorOf_collapse_program (p : Program) : errorOf p.collapse = p.diagnose.head? := by
  rw [Program.collapse, Program.diagnose, errorOf_map]
  exact errorOf_collapseAll _ 0 fun e _ => errorOf_collapse e

/-- Collapsing succeeds exactly if there is nothing to diagnose, and fails exactly with the first
diagnosis: the same path, in steps and as spelled, and the same cause. -/
theorem collapse_fails_with_first_diagnosis (p : Program) :
    ((∃ q, p.collapse = .ok q) ↔ p.diagnose = []) ∧
    (∀ f, p.collapse = .error f ↔ ∃ rest, p.diagnose = f :: rest) ∧
    (∀ path cause, (∃ f, p.collapse = .error f ∧ f.path.text = path ∧ f.cause = cause) ↔
      ∃ f rest, p.diagnose = f :: rest ∧ f.path.text = path ∧ f.cause = cause) := by
  have hfail := errorOf_collapse_program p
  have hfirst : ∀ f, p.collapse = .error f ↔ ∃ rest, p.diagnose = f :: rest := by
    intro f
    rw [← errorOf_eq_some_iff, hfail, List.head?_eq_some_iff]
  refine ⟨?_, hfirst, ?_⟩
  · rw [← errorOf_eq_none_iff, hfail, List.head?_eq_none_iff]
  · intro path cause
    constructor
    · intro h
      obtain ⟨f, hf, htext, hcause⟩ := h
      obtain ⟨rest, hrest⟩ := (hfirst f).mp hf
      exact ⟨f, rest, hrest, htext, hcause⟩
    · intro h
      obtain ⟨f, rest, hrest, htext, hcause⟩ := h
      exact ⟨f, (hfirst f).mpr ⟨rest, hrest⟩, htext, hcause⟩

end OverDelimited
