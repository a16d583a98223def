import OverDelimited.Proofs.Layers

/-!
# Symmetric chains

A chain is symmetric if as many delimiter pairs open it as close it.  `Symmetric e m` says so of an
expression `e` from which the match `m` is to be recovered, without reference to the walks that
recover it.  Resolving accepts the symmetric chains and nothing else, which is the symmetry that
section 8 of the specification requires.
-/

namespace OverDelimited

/-- A tag that can stand in front of a run: it ends in no delimiter pair of its own that the run
could take over, and a literal without text behind it leaves it an ordinary tagged literal. -/
def Admissible (t : Expr) : Prop :=
  t.isTrivialLiteral = false ∧ t.isTriviallyTagged = false ∧ Tagged.resolve ⟨t, .trivial⟩ = none

/-- The two shapes of a symmetric chain.  With a tag, its layers open the body; without one the
innermost layer is a bare literal without text, and then the body may lack text too if the chain
has a single pair. -/
def Symmetric (e : Expr) : Match → Prop
  | ⟨some t, l, d⟩ =>
    1 ≤ d ∧ l.isTrivial = false ∧ Admissible t ∧
      ∃ opened, Closes d t opened ∧ Closes d (.tagged opened l) e
  | ⟨none, l, d⟩ =>
    1 ≤ d ∧ (l.isTrivial = false ∨ d = 1) ∧
      ∃ bare opened, bare.isTrivialLiteral = true ∧ Closes (d - 1) bare opened ∧
        Closes d (.tagged opened l) e

/-- How many delimiter pairs an expression ends in, where a bare literal without text is one. -/
def Expr.openingPairs : Expr → Nat
  | .template l => if l.isTrivial then 1 else 0
  | .tagged t l => if l.isTrivial then t.openingPairs + 1 else 0
  | _ => 0

/-! ### Tags -/

theorem resolve_text_behind (t : Expr) {inner : Literal Expr} (h : inner.isTrivial = false) :
    Tagged.resolve ⟨.tagged t inner, .trivial⟩ = none ↔ firstPair t = none := by
  have hbody : unwind t inner = ([], ⟨t, inner⟩) := unwind_of_isBody (Tagged.isBody_of_text h)
  rw [Tagged.resolve_layer t inner rfl, hbody]
  exact Option.map_eq_none_iff

theorem resolve_untagged {t : Expr} (h : ∀ u m, t ≠ .tagged u m) (l : Literal Expr) :
    Tagged.resolve ⟨t, l⟩ = none :=
  Tagged.resolve_of_isBody fun _ => h

theorem firstPair_tagged_iff {t u : Expr} {l : Literal Expr} (hl : l.isTrivial = true) :
    firstPair (.tagged t l) = some (some u) ↔ t = u ∧ Admissible t := by
  cases t with
  | tagged t inner =>
    cases hi : inner.isTrivial with
    | true => simp [firstPair, Admissible, Expr.isTriviallyTagged, hi]
    | false =>
      have hr := resolve_text_behind t hi
      cases hp : firstPair t <;>
        simp_all [firstPair, Admissible, Expr.isTrivialLiteral, Expr.isTriviallyTagged]
  | template m =>
    have hr := resolve_untagged (t := .template m) (by simp) .trivial
    cases hm : m.isTrivial <;>
      simp_all [firstPair, Admissible, Expr.isTrivialLiteral, Expr.isTriviallyTagged]
  | _ =>
    simp [firstPair, hl, Admissible, Expr.isTrivialLiteral, Expr.isTriviallyTagged,
      resolve_untagged]

theorem firstPair_eq_some_some_iff {e t : Expr} :
    firstPair e = some (some t) ↔ Admissible t ∧ Closes 1 t e := by
  simp only [Closes.succ_iff, Closes.zero_iff]
  constructor
  · intro h
    cases e with
    | tagged u l =>
      cases hl : l.isTrivial with
      | true =>
        obtain ⟨rfl, hu⟩ := (firstPair_tagged_iff hl).mp h
        exact ⟨hu, u, l, rfl, hl, rfl⟩
      | false => cases u <;> simp [firstPair, hl] at h
    | template l => cases hl : l.isTrivial <;> simp [firstPair, hl] at h
    | _ => simp [firstPair] at h
  · intro h
    obtain ⟨ht, u, l, rfl, hl, rfl⟩ := h
    exact (firstPair_tagged_iff hl).mpr ⟨rfl, ht⟩

/-! ### The two shapes -/

theorem balance_eq_tag_iff {k : Nat} {e t : Expr} :
    balance k e = some (some t) ↔ Admissible t ∧ Closes (k + 1) t e := by
  rw [balance_eq_some_iff]
  constructor
  · intro h
    obtain ⟨x, hx, hp⟩ := h
    obtain ⟨ht, hc⟩ := firstPair_eq_some_some_iff.mp hp
    have h := hc.trans hx
    rw [Nat.add_comm 1 k] at h
    exact ⟨ht, h⟩
  · intro h
    obtain ⟨ht, hc⟩ := h
    obtain ⟨l, hl, hx⟩ := hc.innermost
    exact ⟨_, hx, (firstPair_tagged_iff hl).mpr ⟨rfl, ht⟩⟩

theorem balance_eq_bare_iff {k : Nat} {e : Expr} :
    balance k e = some none ↔ ∃ bare, bare.isTrivialLiteral = true ∧ Closes k bare e := by
  rw [balance_eq_some_iff]
  constructor
  · intro h
    obtain ⟨x, hx, hp⟩ := h
    exact ⟨x, firstPair_eq_some_none_iff.mp hp, hx⟩
  · intro h
    obtain ⟨bare, hb, hx⟩ := h
    exact ⟨bare, hx, firstPair_eq_some_none_iff.mpr hb⟩

theorem isTrivialLiteral_ne_tagged {e : Expr} (h : e.isTrivialLiteral = true) (t : Expr)
    (m : Literal Expr) : e ≠ .tagged t m := by
  rintro rfl
  cases h

theorem resolve_eq_tag_iff {n : Tagged} {t : Expr} {l : Literal Expr} {d : Nat} :
    n.resolve = some ⟨some t, l, d⟩ ↔ Symmetric n.toExpr ⟨some t, l, d⟩ := by
  rw [Tagged.resolve_eq_some_iff]
  constructor
  · intro h
    obtain ⟨k, u, rfl, hbody, hc, hbal⟩ := h
    obtain ⟨ht, hu⟩ := balance_eq_tag_iff.mp hbal
    -- the opening layers make the body's tag a tagged literal, so unwinding ended at text
    obtain ⟨v, m, rfl, -, -⟩ := Closes.succ_iff.mp hu
    have hl : l.isTrivial = false := by
      cases hl : l.isTrivial with
      | true => exact absurd rfl (hbody hl v m)
      | false => rfl
    exact ⟨by omega, hl, ht, _, hu, hc⟩
  · intro h
    obtain ⟨hd, hl, ht, u, hu, hc⟩ := h
    obtain ⟨k, rfl⟩ : ∃ k, d = k + 1 := ⟨d - 1, by omega⟩
    exact ⟨k, u, rfl, Tagged.isBody_of_text hl, hc, balance_eq_tag_iff.mpr ⟨ht, hu⟩⟩

theorem resolve_eq_bare_iff {n : Tagged} {l : Literal Expr} {d : Nat} :
    n.resolve = some ⟨none, l, d⟩ ↔ Symmetric n.toExpr ⟨none, l, d⟩ := by
  rw [Tagged.resolve_eq_some_iff]
  constructor
  · intro h
    obtain ⟨k, u, rfl, hbody, hc, hbal⟩ := h
    obtain ⟨bare, hb, hu⟩ := balance_eq_bare_iff.mp hbal
    refine ⟨by omega, ?_, bare, u, hb, hu, hc⟩
    cases k with
    | zero => exact Or.inr rfl
    | succ k =>
      obtain ⟨v, m, rfl, -, -⟩ := Closes.succ_iff.mp hu
      cases hl : l.isTrivial with
      | true => exact absurd rfl (hbody hl v m)
      | false => exact Or.inl rfl
  · intro h
    obtain ⟨hd, hl, bare, u, hb, hu, hc⟩ := h
    obtain ⟨k, rfl⟩ : ∃ k, d = k + 1 := ⟨d - 1, by omega⟩
    refine ⟨k, u, rfl, ?_, hc, balance_eq_bare_iff.mpr ⟨bare, hb, hu⟩⟩
    rcases hl with hl | hd
    · exact Tagged.isBody_of_text hl
    · obtain rfl : k = 0 := by omega
      rw [Closes.zero_iff.mp hu]
      exact fun _ => isTrivialLiteral_ne_tagged hb

theorem resolve_eq_some_iff_symmetric {n : Tagged} {m : Match} :
    n.resolve = some m ↔ Symmetric n.toExpr m := by
  obtain ⟨_ | t, l, d⟩ := m
  · exact resolve_eq_bare_iff
  · exact resolve_eq_tag_iff

/-! ### Counting pairs -/

theorem openingPairs_of_closes {d : Nat} {x e : Expr} (h : Closes d x e) :
    e.openingPairs = x.openingPairs + d := by
  induction h with
  | refl => rfl
  | layer _ hl ih =>
    simp only [Expr.openingPairs, hl, if_true, ih]
    omega

theorem openingPairs_of_admissible {t : Expr} (h : Admissible t) : t.openingPairs = 0 := by
  obtain ⟨hlit, htag, -⟩ := h
  cases t <;> simp_all [Expr.openingPairs, Expr.isTrivialLiteral, Expr.isTriviallyTagged]

theorem openingPairs_of_bare {b : Expr} (h : b.isTrivialLiteral = true) : b.openingPairs = 1 := by
  cases b <;> simp_all [Expr.openingPairs, Expr.isTrivialLiteral]

theorem openingPairs_eq_of_resolve {n : Tagged} {opened : Expr} {l : Literal Expr} {closed : Nat}
    (hl : l.isTrivial = false) (hc : Closes closed (.tagged opened l) n.toExpr)
    (hr : n.resolve ≠ none) : opened.openingPairs = closed := by
  obtain ⟨⟨r, b, d⟩, hm⟩ := Option.ne_none_iff_exists'.mp hr
  obtain ⟨k, u, rfl, hbody, hcu, hbal⟩ := Tagged.resolve_eq_some_iff.mp hm
  -- the body with text fixes where unwinding ends, so both decompositions are the same one
  have h1 := unwind_of_closes (n := ⟨u, b⟩) hbody hcu
  have h2 := unwind_of_closes (n := ⟨opened, l⟩) (Tagged.isBody_of_text hl) hc
  have hd : closed = k + 1 := by rw [← h2.1, h1.1]
  have hn := h2.2.symm.trans h1.2
  simp only [Tagged.mk.injEq] at hn
  obtain ⟨rfl, rfl⟩ := hn
  subst hd
  cases r with
  | none =>
    obtain ⟨bare, hb, hu⟩ := balance_eq_bare_iff.mp hbal
    rw [openingPairs_of_closes hu, openingPairs_of_bare hb, Nat.add_comm]
  | some t =>
    obtain ⟨ht, hu⟩ := balance_eq_tag_iff.mp hbal
    rw [openingPairs_of_closes hu, openingPairs_of_admissible ht, Nat.zero_add]

/-- Resolving accepts exactly the symmetric chains, and gives back their tag, body and depth.  In
particular a chain around a body with text resolves only if it opens and closes with equally many
pairs. -/
theorem resolve_accepts_symmetric_chains (n : Tagged) :
    (∀ m, n.resolve = some m ↔ Symmetric n.toExpr m) ∧
    (n.resolve = none ↔ ∀ m, ¬ Symmetric n.toExpr m) ∧
    (∀ opened l closed, l.isTrivial = false → Closes closed (.tagged opened l) n.toExpr →
      n.resolve ≠ none → opened.openingPairs = closed) := by
  refine ⟨fun m => resolve_eq_some_iff_symmetric, ?_, fun _ _ _ => openingPairs_eq_of_resolve⟩
  rw [Option.eq_none_iff_forall_ne_some]
  constructor
  · intro h m hm
    exact h m (resolve_eq_some_iff_symmetric.mpr hm)
  · intro h m hm
    exact h m (resolve_eq_some_iff_symmetric.mp hm)

theorem two_pairs_open_and_close :
    Tagged.resolve ⟨Expr.close 1 (.tagged (opening (some (.identifier "sql")) 2) (.ofText "x")),
        .trivial⟩ = some ⟨some (.identifier "sql"), .ofText "x", 2⟩ ∧
      (opening (some (.identifier "sql")) 2).openingPairs = 2 := by
  let body : Literal Expr := .ofText "x"
  let opened := opening (some (.identifier "sql")) 2
  let n : Tagged := ⟨Expr.close 1 (.tagged opened body), .trivial⟩
  have hc : Closes 2 (.tagged opened body) n.toExpr := .layer (.layer (.refl _) rfl) rfl
  have hr : n.resolve = some ⟨some (.identifier "sql"), body, 2⟩ := rfl
  exact ⟨hr, (resolve_accepts_symmetric_chains n).2.2 opened body 2 rfl hc (by simp [hr])⟩

end OverDelimited
