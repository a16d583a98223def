import OverDelimited.Chain

/-!
# Layers of a chain

The two sides of a chain are runs of literals without text.  `Closes d x e` says that `e` is `x`
followed by `d` of them.  Unwinding, balancing and the first pair are described here through that
relation, and `resolve_eq_some_iff` puts the descriptions together: later modules reason about
layers and leave the definitions closed.
-/

namespace OverDelimited

/-- `Closes d x e`: the expression `e` is `x` followed by `d` literals without text, whatever their
cooked values. -/
inductive Closes : Nat → Expr → Expr → Prop
  | refl (x : Expr) : Closes 0 x x
  | layer {d : Nat} {x e : Expr} {l : Literal Expr} (h : Closes d x e)
      (hl : l.isTrivial = true) : Closes (d + 1) x (.tagged e l)

namespace Closes

theorem zero_iff {x e : Expr} : Closes 0 x e ↔ e = x := by
  constructor
  · intro h
    cases h
    rfl
  · intro h
    subst h
    exact refl e

theorem succ_iff {d : Nat} {x e : Expr} :
    Closes (d + 1) x e ↔ ∃ t l, e = .tagged t l ∧ l.isTrivial = true ∧ Closes d x t := by
  constructor
  · intro h
    cases h with
    | layer h hl => exact ⟨_, _, rfl, hl, h⟩
  · intro h
    obtain ⟨t, l, rfl, hl, h⟩ := h
    exact layer h hl

theorem exists_tagged {d : Nat} {u : Expr} {m : Literal Expr} {e : Expr}
    (h : Closes d (.tagged u m) e) : ∃ t l, e = .tagged t l := by
  cases h with
  | refl => exact ⟨u, m, rfl⟩
  | layer h hl => exact ⟨_, _, rfl⟩

theorem trans {a b : Nat} {x y z : Expr} (hxy : Closes a x y) (hyz : Closes b y z) :
    Closes (a + b) x z := by
  induction hyz with
  | refl => exact hxy
  | layer _ hl ih => exact layer (ih hxy) hl

theorem sizeOf_le {d : Nat} {x e : Expr} (h : Closes d x e) : sizeOf x ≤ sizeOf e := by
  induction h with
  | refl => exact Nat.le_refl _
  | layer _ _ ih =>
    simp only [Expr.tagged.sizeOf_spec]
    omega

theorem innermost {d : Nat} {x e : Expr} (h : Closes (d + 1) x e) :
    ∃ l, l.isTrivial = true ∧ Closes d (.tagged x l) e := by
  induction d generalizing e with
  | zero =>
    obtain ⟨t, l, rfl, hl, ht⟩ := succ_iff.mp h
    rw [zero_iff.mp ht]
    exact ⟨l, hl, refl _⟩
  | succ d ih =>
    obtain ⟨t, l, rfl, hl, ht⟩ := succ_iff.mp h
    obtain ⟨m, hm, hx⟩ := ih ht
    exact ⟨m, hm, layer hx hl⟩

end Closes

/-! ### The closing side -/

/-- A node at which unwinding ends: its literal has text, or its tag is no tagged literal. -/
def Tagged.IsBody (n : Tagged) : Prop :=
  n.literal.isTrivial = true → ∀ t m, n.tag ≠ .tagged t m

theorem Tagged.isBody_of_text {u : Expr} {m : Literal Expr} (h : m.isTrivial = false) :
    Tagged.IsBody ⟨u, m⟩ := by
  intro ht
  rw [h] at ht
  cases ht

theorem Tagged.isBody_or_layer (tag : Expr) (l : Literal Expr) :
    Tagged.IsBody ⟨tag, l⟩ ∨ ∃ u m, tag = .tagged u m ∧ l.isTrivial = true := by
  cases hl : l.isTrivial with
  | false => exact Or.inl (Tagged.isBody_of_text hl)
  | true =>
    cases tag with
    | tagged u m => exact Or.inr ⟨u, m, rfl, rfl⟩
    | _ => exact Or.inl fun _ _ _ => nofun

theorem unwind_layer (tag : Expr) (inner : Literal Expr) {l : Literal Expr}
    (hl : l.isTrivial = true) :
    unwind (.tagged tag inner) l = (l :: (unwind tag inner).1, (unwind tag inner).2) := by
  simp only [unwind, hl, if_true]

theorem unwind_of_isBody {u : Expr} {m : Literal Expr} (h : Tagged.IsBody ⟨u, m⟩) :
    unwind u m = ([], ⟨u, m⟩) := by
  cases u with
  | tagged t k =>
    cases hm : m.isTrivial with
    | true => exact absurd rfl (h hm t k)
    | false => simp only [unwind, hm, Bool.false_eq_true, if_false]
  | _ => rfl

theorem isBody_unwind (e : Expr) (l : Literal Expr) : (unwind e l).2.IsBody := by
  fun_induction unwind e l with
  | case1 tag inner l hl unwound ih => exact ih
  | case2 tag inner l hl => exact Tagged.isBody_of_text (by simpa using hl)
  | case3 e l h => exact fun _ t m => h t m

theorem closes_unwind (e : Expr) (l : Literal Expr) :
    Closes (unwind e l).1.length (unwind e l).2.toExpr (.tagged e l) := by
  fun_induction unwind e l with
  | case1 tag inner l hl unwound ih => exact Closes.layer ih hl
  | case2 tag inner l hl => exact Closes.refl _
  | case3 e l h => exact Closes.refl _

theorem unwind_of_closes {d : Nat} {n : Tagged} {e : Expr} {l : Literal Expr} (hn : n.IsBody)
    (h : Closes d n.toExpr (.tagged e l)) :
    (unwind e l).1.length = d ∧ (unwind e l).2 = n := by
  induction d generalizing e l with
  | zero =>
    have he := Closes.zero_iff.mp h
    simp only [Tagged.toExpr, Expr.tagged.injEq] at he
    obtain ⟨rfl, rfl⟩ := he
    rw [unwind_of_isBody hn]
    exact ⟨rfl, rfl⟩
  | succ d ih =>
    obtain ⟨t, m, he, hm, ht⟩ := Closes.succ_iff.mp h
    cases he
    obtain ⟨u, k, rfl⟩ := ht.exists_tagged
    obtain ⟨hlen, hbody⟩ := ih ht
    rw [unwind_layer u k hm]
    exact ⟨congrArg (· + 1) hlen, hbody⟩

/-! ### The opening side -/

theorem firstPair_eq_some_none_iff {e : Expr} :
    firstPair e = some none ↔ e.isTrivialLiteral = true := by
  unfold firstPair
  split
  · next l => cases hl : l.isTrivial <;> simp [Expr.isTrivialLiteral, hl]
  · split <;> simp [Expr.isTrivialLiteral]
  · split <;> simp [Expr.isTrivialLiteral]
  · next h _ _ => cases e <;> simp_all [Expr.isTrivialLiteral]

/-- Balancing succeeds on the given number of layers around a first pair, and on nothing else. -/
theorem balance_eq_some_iff {n : Nat} {e : Expr} {r : Option Expr} :
    balance n e = some r ↔ ∃ x, Closes n x e ∧ firstPair x = some r := by
  induction n generalizing e with
  | zero =>
    constructor
    · intro h
      exact ⟨e, Closes.refl e, h⟩
    · intro h
      obtain ⟨x, hx, hr⟩ := h
      rw [Closes.zero_iff.mp hx]
      exact hr
  | succ n ih =>
    cases e with
    | tagged t l =>
      cases hl : l.isTrivial with
      | true =>
        simp only [balance, hl, if_true, ih, Closes.succ_iff]
        constructor
        · intro h
          obtain ⟨x, hx, hr⟩ := h
          exact ⟨x, ⟨t, l, rfl, hl, hx⟩, hr⟩
        · intro h
          obtain ⟨x, ⟨t', l', he, -, hx⟩, hr⟩ := h
          cases he
          exact ⟨x, hx, hr⟩
      | false =>
        simp only [balance, hl, Bool.false_eq_true, if_false, Closes.succ_iff]
        constructor
        · intro h
          cases h
        · intro h
          obtain ⟨x, ⟨t', l', he, hl', -⟩, -⟩ := h
          cases he
          rw [hl] at hl'
          cases hl'
    | _ => simp [balance, Closes.succ_iff]

theorem sizeOf_balance {n : Nat} {e t : Expr} (h : balance n e = some (some t)) :
    sizeOf t < sizeOf e := by
  obtain ⟨x, hx, hp⟩ := balance_eq_some_iff.mp h
  exact Nat.lt_of_lt_of_le (sizeOf_firstPair hp) hx.sizeOf_le

/-! ### Resolving -/

namespace Tagged

theorem resolve_of_isBody {n : Tagged} (h : n.IsBody) : n.resolve = none := by
  simp only [resolve, unwind_of_isBody h]

theorem resolve_layer (tag : Expr) (inner : Literal Expr) {l : Literal Expr}
    (hl : l.isTrivial = true) :
    resolve ⟨.tagged tag inner, l⟩ =
      (balance (unwind tag inner).1.length (unwind tag inner).2.tag).map fun t =>
        ⟨t, (unwind tag inner).2.literal, (unwind tag inner).1.length + 1⟩ := by
  simp only [resolve, unwind_layer tag inner hl]

/-- What a node resolves to: closing layers around a body, in front of which a first pair stands
behind one opening layer less. -/
theorem resolve_eq_some_iff {n : Tagged} {r : Option Expr} {b : Literal Expr} {d : Nat} :
    n.resolve = some ⟨r, b, d⟩ ↔
      ∃ k u, d = k + 1 ∧ IsBody ⟨u, b⟩ ∧ Closes d (.tagged u b) n.toExpr ∧
        balance k u = some r := by
  obtain ⟨tag, l⟩ := n
  have hbody := isBody_unwind tag l
  have hcloses := closes_unwind tag l
  constructor
  · intro h
    simp only [resolve] at h
    split at h
    · cases h
    · next layer layers payload hu =>
      rw [hu] at hbody hcloses
      simp only [Option.map_eq_some_iff, Match.mk.injEq] at h
      obtain ⟨t, ht, rfl, rfl, rfl⟩ := h
      exact ⟨layers.length, payload.tag, rfl, hbody, hcloses, ht⟩
  · intro h
    obtain ⟨k, u, rfl, hb, hc, ht⟩ := h
    obtain ⟨hlen, hpay⟩ := unwind_of_closes (n := ⟨u, b⟩) hb hc
    simp only [resolve]
    split
    · next hu => simp [hu] at hlen
    · next layer layers payload hu =>
      rw [hu] at hlen hpay
      simp only [List.length_cons, Nat.add_right_cancel_iff] at hlen hpay
      subst hpay
      rw [hlen, ht]
      rfl

end Tagged

end OverDelimited
