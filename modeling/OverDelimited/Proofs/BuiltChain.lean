import OverDelimited.Proofs.Symmetry
import OverDelimited.Proofs.Walk

/-!
# Chains as they are built

`chain` builds what a host parser reads for a literal between two delimiter runs.  If the literal
has text and the tag in front of the run can be told from it, the outermost layer resolves to just
that tag and that literal, and layers that close in excess of it resolve to nothing: the walk passes
over them and leaves them in place.
-/

namespace OverDelimited

/-- A literal with as many pairs closing it as open it. -/
def builtChain (tag : Option Expr) (pairs : Nat) (l : Literal Expr) : Expr :=
  .close pairs (.tagged (opening tag pairs) l)

theorem chain_of_pairs (tag : Option Expr) (further : Nat) (l : Literal Expr) :
    chain tag (2 * (further + 1) + 1) l = .ok (builtChain tag (further + 1) l) := by
  have hrun : 3 ≤ 2 * (further + 1) + 1 ∧ (2 * (further + 1) + 1) % 2 = 1 := by omega
  have hpairs : (2 * (further + 1) + 1) / 2 = further + 1 := by omega
  simp only [chain, if_pos hrun, hpairs]
  rfl

/-! ### The two sides -/

theorem closes_close (n : Nat) (x : Expr) : Closes n x (.close n x) := by
  induction n with
  | zero => exact Closes.refl x
  | succ n ih => exact Closes.layer ih rfl

theorem opening_some (t : Expr) (further : Nat) :
    opening (some t) (further + 1) = .close (further + 1) t := by
  induction further with
  | zero => rfl
  | succ further ih => rw [opening, ih, ← Expr.close]

theorem opening_none (further : Nat) :
    opening none (further + 1) = .close further (.template .trivial) := by
  induction further with
  | zero => rfl
  | succ further ih => rw [opening, ih, ← Expr.close]

theorem openingPairs_opening {tag : Option Expr} (ht : ∀ t ∈ tag, Admissible t) (further : Nat) :
    (opening tag (further + 1)).openingPairs = further + 1 := by
  cases tag with
  | none =>
    rw [opening_none, openingPairs_of_closes (closes_close _ _), openingPairs_of_bare rfl]
    omega
  | some t =>
    have hadm := openingPairs_of_admissible (ht t rfl)
    rw [opening_some, openingPairs_of_closes (closes_close _ _), hadm]
    omega

/-! ### Resolving -/

section Resolve

variable {tag : Option Expr} {l : Literal Expr} (ht : ∀ t ∈ tag, Admissible t)
  (hl : l.isTrivial = false)

include ht hl

theorem symmetric_builtChain (further : Nat) :
    Symmetric (builtChain tag (further + 1) l) ⟨tag, l, further + 1⟩ := by
  have hclosed := closes_close (further + 1) (.tagged (opening tag (further + 1)) l)
  have hpos : 1 ≤ further + 1 := by omega
  cases tag with
  | none =>
    refine ⟨hpos, Or.inl hl, .template .trivial, _, rfl, ?_, hclosed⟩
    rw [opening_none]
    exact closes_close _ _
  | some t =>
    refine ⟨hpos, hl, ht t rfl, _, ?_, hclosed⟩
    rw [opening_some]
    exact closes_close _ _

theorem resolve_builtChain (further : Nat) :
    Tagged.resolve ⟨.close further (.tagged (opening tag (further + 1)) l), .trivial⟩ =
      some ⟨tag, l, further + 1⟩ :=
  resolve_eq_some_iff_symmetric.mpr (symmetric_builtChain ht hl further)

theorem resolve_excess (further extra : Nat) :
    Tagged.resolve ⟨.close extra (builtChain tag (further + 1) l), .trivial⟩ = none := by
  have hclosed : Closes (further + 1 + (extra + 1)) (.tagged (opening tag (further + 1)) l)
      (.close (extra + 1) (builtChain tag (further + 1) l)) :=
    (closes_close (further + 1) _).trans (closes_close (extra + 1) _)
  apply Classical.byContradiction
  intro hr
  -- a match counts as many closing layers as pairs open, and here are more
  have hpairs := openingPairs_eq_of_resolve (n := ⟨_, .trivial⟩) hl hclosed hr
  rw [openingPairs_opening ht] at hpairs
  omega

/-- No literal behind a chain makes a first pair of its last delimiters. -/
theorem firstPair_builtChain (further extra : Nat) :
    firstPair (.close extra (builtChain tag (further + 1) l)) = none := by
  cases hp : firstPair (.close extra (builtChain tag (further + 1) l)) with
  | none => rfl
  | some r =>
    exfalso
    cases r with
    | none =>
      have hbare := firstPair_eq_some_none_iff.mp hp
      cases extra <;> cases hbare
    | some t =>
      obtain ⟨⟨-, hpadding, hopen⟩, hc⟩ := firstPair_eq_some_some_iff.mp hp
      obtain ⟨u, m, he, -, hu⟩ := Closes.succ_iff.mp hc
      cases Closes.zero_iff.mp hu
      -- its tag lies below the last layer: one more layer makes a chain of it, or it is padding
      cases extra with
      | zero =>
        cases he
        rw [resolve_builtChain ht hl] at hopen
        cases hopen
      | succ extra =>
        cases he
        cases extra <;> cases hpadding

/-! ### Walking over the layers in excess -/

theorem collapse_excess_eq_ok_iff {further extra : Nat} {e' : Expr} :
    (Expr.close extra (builtChain tag (further + 1) l)).collapse = .ok e' ↔
      ∃ c', (builtChain tag (further + 1) l).collapse = .ok c' ∧ .close extra c' = e' := by
  induction extra generalizing e' with
  | zero =>
    constructor
    · intro h
      exact ⟨e', h, rfl⟩
    · intro h
      obtain ⟨c', hc, rfl⟩ := h
      exact hc
  | succ extra ih =>
    rw [Expr.close, collapse_of_resolve_none (resolve_excess ht hl further extra)]
    simp only [collapseLiteral, bind_eq_ok, mapError_eq_ok, ih, Literal.trivial, Literal.ofText,
      Literal.placeholders, collapseAll, Except.ok.injEq]
    constructor
    · intro h
      obtain ⟨_, ⟨c', hc, rfl⟩, ps, rfl, rfl⟩ := h
      exact ⟨c', hc, rfl⟩
    · intro h
      obtain ⟨c', hc, rfl⟩ := h
      exact ⟨_, ⟨c', hc, rfl⟩, [], rfl, rfl⟩

theorem diagnose_excess (further extra : Nat) :
    (Expr.close extra (builtChain tag (further + 1) l)).diagnose =
      (bodyFaults l ++ diagnoseLiteral tag l).map (Fault.underTags extra) := by
  induction extra with
  | zero =>
    rw [map_underTags_zero]
    exact diagnose_of_resolve_some (resolve_builtChain ht hl further)
  | succ extra ih =>
    rw [Expr.close, diagnose_of_resolve_none (resolve_excess ht hl further extra),
      diagnoseLiteral, ih]
    simp only [Literal.trivial, Literal.ofText, Literal.placeholders, diagnoseAll, List.append_nil,
      List.map_map]
    rfl

end Resolve

end OverDelimited
