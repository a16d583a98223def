import OverDelimited.Proofs.BuiltChain
import OverDelimited.Proofs.FixedPoint

/-!
# Recovered tags

Resolving hands back a tag only if it passes three tests, and the last of them resolves the tag
itself with one more pair behind it.  A tag that passes them makes no chain together with any
literal, neither at the node nor at a layer below it, so that what takes the place of a chain is an
ordinary literal.  Nothing is refused without need: a tag that makes no chain with any literal, and
is not padding itself, is handed back by some chain.
-/

namespace OverDelimited

namespace Tagged

theorem spine_resolution (tag : Expr) (l : Literal Expr) :
    (spine ⟨tag, l⟩).resolution = (spine ⟨tag, l⟩).node.resolve := by
  have body : ∀ {n : Tagged}, n.IsBody → n.spine.resolution = n.spine.node.resolve := by
    intro n hbody
    rw [spine_of_isBody hbody]
    exact (resolve_of_isBody hbody).symm
  fun_induction unwind tag l with
  | case1 tag inner l hl unwound ih =>
    cases hr : resolve ⟨.tagged tag inner, l⟩ with
    | none =>
      rw [spine_of_layer hl hr]
      exact ih
    | some m =>
      rw [spine_of_resolve hr]
      exact hr.symm
  | case2 tag inner l hl =>
    have hl' : l.isTrivial = false := by simpa using hl
    exact body (isBody_of_text hl')
  | case3 tag l h => exact body fun _ => h

/-! ### A literal behind an admissible tag -/

section Behind

variable {t : Expr} (h : Admissible t) (l : Literal Expr)

include h

theorem resolve_behind_admissible : resolve ⟨t, l⟩ = none := by
  obtain ⟨-, -, hempty⟩ := h
  rcases isBody_or_layer t l with hbody | ⟨u, m, rfl, hl⟩
  · exact resolve_of_isBody hbody
  · -- a layer counts whatever its cooked value, so that any one does as well as the one tested
    have htrivial : (Literal.trivial : Literal Expr).isTrivial = true := rfl
    rw [resolve_layer u m htrivial] at hempty
    rw [resolve_layer u m hl]
    rw [Option.map_eq_none_iff] at hempty ⊢
    exact hempty

theorem spine_behind_admissible : (spine ⟨t, l⟩).resolution = none := by
  have hr := resolve_behind_admissible h l
  rcases isBody_or_layer t l with hbody | ⟨u, m, rfl, hl⟩
  · rw [spine_of_isBody hbody]
  · have hm : m.isTrivial = false := h.2.1
    have hbody : IsBody ⟨u, m⟩ := isBody_of_text hm
    rw [spine_of_layer hl hr, spine_of_isBody hbody]
    rfl

theorem resolves_behind_admissible : (Expr.tagged t l).resolves = false := by
  have hr := resolve_behind_admissible h l
  rw [Expr.resolves, hr]
  rfl

end Behind

/-! ### Tags that are handed back -/

/-- A match found at a node or at the layer where its spine stops. -/
def Finds (n : Tagged) (m : Match) : Prop :=
  n.resolve = some m ∨ n.spine.resolution = some m

theorem admissible_of_finds {n : Tagged} {t : Expr} {body : Literal Expr} {d : Nat}
    (h : n.Finds ⟨some t, body, d⟩) : Admissible t := by
  have admissible : ∀ {k : Tagged}, k.resolve = some ⟨some t, body, d⟩ → Admissible t := by
    intro k hk
    obtain ⟨-, -, ht, -⟩ := resolve_eq_tag_iff.mp hk
    exact ht
  rcases h with h | h
  · exact admissible h
  · have hnode := spine_resolution n.tag n.literal
    exact admissible (hnode.symm.trans h)

theorem exists_resolve_of_admissible {t : Expr} (h : Admissible t) :
    ∃ (n : Tagged) (body : Literal Expr) (d : Nat), n.resolve = some ⟨some t, body, d⟩ := by
  have ht : ∀ t' ∈ some t, Admissible t' := by
    intro t' ht'
    cases ht'
    exact h
  exact ⟨_, .ofText "x", 1, resolve_builtChain ht rfl 0⟩

/-- A tag that is handed back, by a node or at the end of its spine, makes no chain with any
literal; with the tag or without, what takes the place of a chain does not resolve, whatever the
literal in it; and exactly the tags that make no chain and are no padding are handed back. -/
theorem recovered_tag_reopens_no_chain :
    (∀ (n : Tagged) (t : Expr) (body : Literal Expr) (d : Nat), n.Finds ⟨some t, body, d⟩ →
      ∀ l, resolve ⟨t, l⟩ = none ∧ (spine ⟨t, l⟩).resolution = none) ∧
    (∀ (n : Tagged) (found : Match), n.Finds found →
      ∀ l, (Expr.ofLiteral found.tag l).resolves = false) ∧
    (∀ t : Expr,
      (∃ (n : Tagged) (body : Literal Expr) (d : Nat), n.resolve = some ⟨some t, body, d⟩) ↔
        t.isTrivialLiteral = false ∧ t.isTriviallyTagged = false ∧
          ∀ l, resolve ⟨t, l⟩ = none ∧ (spine ⟨t, l⟩).resolution = none) := by
  refine ⟨fun n t body d h l => ?_, fun n found h l => ?_, fun t => ⟨?_, ?_⟩⟩
  · have ht := admissible_of_finds h
    exact ⟨resolve_behind_admissible ht l, spine_behind_admissible ht l⟩
  · obtain ⟨_ | t, body, d⟩ := found
    · rfl
    · exact resolves_behind_admissible (admissible_of_finds h) l
  · rintro ⟨n, body, d, h⟩
    have ht := admissible_of_finds (.inl h)
    refine ⟨ht.1, ht.2.1, fun l => ?_⟩
    exact ⟨resolve_behind_admissible ht l, spine_behind_admissible ht l⟩
  · rintro ⟨hbare, hpadding, hnone⟩
    exact exists_resolve_of_admissible ⟨hbare, hpadding, (hnone .trivial).1⟩

/-- A tagged literal in front of a run of five delimiters, and one delimiter pair too many behind
the run that closes it. -/
def styled : Tagged :=
  ⟨builtChain (some (.tagged (.identifier "styled") (.ofText "x"))) 2 (.ofText "y"), .trivial⟩

theorem styled_tag_reopens_no_chain :
    styled.spine.resolution =
      some ⟨some (.tagged (.identifier "styled") (.ofText "x")), .ofText "y", 2⟩ ∧
    resolve ⟨.tagged (.identifier "styled") (.ofText "x"), .trivial⟩ = none ∧
    (spine ⟨.tagged (.identifier "styled") (.ofText "x"), .trivial⟩).resolution = none ∧
    (Expr.tagged (.tagged (.identifier "styled") (.ofText "x")) .trivial).resolves = false ∧
    ¬ ∃ (n : Tagged) (body : Literal Expr) (d : Nat),
      n.resolve = some ⟨some (.tagged (.template .trivial) (.ofText "x")), body, d⟩ := by
  have hfound : styled.spine.resolution =
      some ⟨some (.tagged (.identifier "styled") (.ofText "x")), .ofText "y", 2⟩ := rfl
  obtain ⟨htag, hnode, hrecovered⟩ := recovered_tag_reopens_no_chain
  obtain ⟨hresolve, hspine⟩ := htag styled _ _ _ (.inr hfound) .trivial
  refine ⟨hfound, hresolve, hspine, hnode styled _ (.inr hfound) .trivial, ?_⟩
  -- three delimiters in front of the text: one more pair would close a chain of its own
  intro h
  obtain ⟨-, -, hnone⟩ := (hrecovered _).mp h
  obtain ⟨hempty, -⟩ := hnone .trivial
  cases hempty

end Tagged

end OverDelimited
