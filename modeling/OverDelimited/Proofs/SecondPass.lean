import OverDelimited.Proofs.Outline

/-!
# A second pass

Section 8 of the specification asks that a pass over a result change nothing.  But the result of one
pass need not be a fixed point of the next.  An opening run is collapsed as an expression of its own
when it stands in front of too few closing layers, a body can lose all its text, and layers left
over stay around what replaced a chain; each of these can make two sides balance that did not
balance before.

`Expr.outlook` tells from an expression alone which outline its collapsed form will have.  A second
pass changes nothing exactly if no node that the first one visits has the outlook of a chain.
-/

namespace OverDelimited

/-! ### Outlines of results -/

/-- The outline of a literal with a tag of the given outline in front of it, or without. -/
def Outline.ofLiteral : Option Outline → Bool → Outline
  | none, empty => .bare empty
  | some o, empty => o.behind empty

/-- Whether a body has no text left once it is normalized. -/
def Literal.emptied (body : Literal Expr) : Bool :=
  match body.normalize with
  | .ok body' => body'.isTrivial
  | .error _ => false

/-- The outline that an expression has after it is collapsed. -/
def Expr.outlook : Expr → Outline
  | .template l => .bare l.isTrivial
  | .tagged tag l =>
    match _h : Tagged.resolve ⟨tag, l⟩ with
    | none => tag.outlook.behind l.isTrivial
    | some ⟨none, body, _⟩ => .bare body.emptied
    | some ⟨some t, body, _⟩ => t.outlook.behind body.emptied
  | .identifier _ | .string _ | .call .. | .member .. | .array _ => .plain
termination_by e => sizeOf e
decreasing_by
  · simp only [Expr.tagged.sizeOf_spec]
    omega
  · have hs := sizeOf_resolve _h
    simp only [Option.some.sizeOf_spec] at hs
    simp only [Expr.tagged.sizeOf_spec]
    omega

theorem outlook_template (l : Literal Expr) :
    (Expr.template l).outlook = .ofLiteral none l.isTrivial := by
  rw [Expr.outlook]
  rfl

theorem outlook_of_resolve_none {tag : Expr} {l : Literal Expr}
    (h : Tagged.resolve ⟨tag, l⟩ = none) :
    (Expr.tagged tag l).outlook = .ofLiteral (some tag.outlook) l.isTrivial := by
  rw [Expr.outlook]
  split
  · rfl
  · next hr => rw [h] at hr; cases hr
  · next hr => rw [h] at hr; cases hr

theorem outlook_of_resolve_some {tag : Expr} {l body : Literal Expr} {r : Option Expr} {d : Nat}
    (h : Tagged.resolve ⟨tag, l⟩ = some ⟨r, body, d⟩) :
    (Expr.tagged tag l).outlook = .ofLiteral (r.map Expr.outlook) body.emptied := by
  rw [Expr.outlook]
  split
  · next hr => rw [h] at hr; cases hr
  · next hr => rw [h] at hr; cases hr; rfl
  · next hr => rw [h] at hr; cases hr; rfl

theorem isTrivial_withPlaceholders (l : Literal Expr) (ps : List Expr) :
    (l.withPlaceholders ps).isTrivial = l.isTrivial := by
  cases l with
  | text s => rfl
  | hole s p rest => cases ps <;> rfl

theorem outline_of_collapseLiteral {tag : Option Expr} {l : Literal Expr} {e' : Expr}
    (h : collapseLiteral tag l = .ok e')
    (ih : ∀ t ∈ tag, ∀ t', t.collapse = .ok t' → t'.outline = t.outlook) :
    e'.outline = .ofLiteral (tag.map Expr.outlook) l.isTrivial := by
  obtain ⟨tag', ps, htag, -, heq⟩ := collapseLiteral_eq_ok_iff.mp h
  subst heq
  rw [← isTrivial_withPlaceholders l ps]
  cases tag with
  | none => cases tag' with
    | none => rfl
    | some t' => cases htag
  | some t => cases tag' with
    | none => cases htag
    | some t' =>
      have ht := ih t rfl t' (Option.some.inj htag)
      rw [Option.map_some, ← ht]
      rfl

theorem outline_of_collapse {e e' : Expr} (h : e.collapse = .ok e') : e'.outline = e.outlook := by
  induction e using Expr.walk_induction generalizing e' with
  | identifier name =>
    rw [Expr.collapse] at h
    cases h
    rw [Expr.outlook]
    rfl
  | string value =>
    rw [Expr.collapse] at h
    cases h
    rw [Expr.outlook]
    rfl
  | template l ih =>
    rw [collapse_template] at h
    rw [outlook_template]
    exact outline_of_collapseLiteral h fun t ht => absurd ht (Option.not_mem_none t)
  | kept tag l hr ihtag ih =>
    rw [collapse_of_resolve_none hr] at h
    rw [outlook_of_resolve_none hr]
    apply outline_of_collapseLiteral h
    intro t ht t' ht'
    cases ht
    exact ihtag ht'
  | replaced tag l r body d hr ihr ih =>
    obtain ⟨body', hn, hlit⟩ := (collapse_replaced_eq_ok_iff hr).mp h
    rw [outlook_of_resolve_some hr, Literal.emptied, hn]
    exact outline_of_collapseLiteral hlit fun t ht t' => ihr t ht
  | call callee arguments ihcallee ih =>
    obtain ⟨callee', -, arguments', -, rfl⟩ := collapse_call_eq_ok_iff.mp h
    rw [Expr.outlook]
    rfl
  | member object property ih =>
    obtain ⟨object', -, rfl⟩ := collapse_member_eq_ok_iff.mp h
    rw [Expr.outlook]
    rfl
  | array elements ih =>
    obtain ⟨elements', -, rfl⟩ := collapse_array_eq_ok_iff.mp h
    rw [Expr.outlook]
    rfl

/-! ### What the first pass leaves to a second -/

/-- No node that the walk comes to has the outlook of a chain. -/
def Expr.StaysCollapsed (e : Expr) : Prop :=
  ∀ n, Visits e n → n.outlook.isChain = false

theorem staysCollapsed_iff {e : Expr} :
    e.StaysCollapsed ↔ e.outlook.isChain = false ∧ ∀ c ∈ e.children, c.StaysCollapsed :=
  forall_visits_iff

theorem forall_mem_results_iff {P Q : Expr → Prop} {es es' : List Expr}
    (h : es.map Expr.collapse = es'.map .ok)
    (hPQ : ∀ e ∈ es, ∀ e', e.collapse = .ok e' → (Q e' ↔ P e)) :
    (∀ e' ∈ es', Q e') ↔ ∀ e ∈ es, P e := by
  induction es generalizing es' with
  | nil =>
    cases es' with
    | nil => exact ⟨fun _ => nofun, fun _ => nofun⟩
    | cons e' es' => cases h
  | cons e es ih =>
    cases es' with
    | nil => cases h
    | cons e' es' =>
      simp only [List.map_cons, List.cons.injEq] at h
      have he := hPQ e (List.mem_cons_self ..) e' h.1
      have hes := ih h.2 fun c hc => hPQ c (List.mem_cons_of_mem _ hc)
      rw [List.forall_mem_cons, List.forall_mem_cons, he, hes]

theorem settled_of_collapse_iff {e e' : Expr} (h : e.collapse = .ok e') :
    e'.Settled ↔ e.StaysCollapsed := by
  induction e using Expr.children_induction generalizing e' with
  | step e ih =>
    have hresolves : e'.resolves = e.outlook.isChain := by
      rw [resolves_eq_isChain, outline_of_collapse h]
    rw [settled_iff, staysCollapsed_iff, hresolves]
    apply and_congr_right
    intro hr
    -- the result does not resolve, so that its children are the results of the children
    have hmap := map_children_of_collapse h (hresolves.trans hr)
    exact forall_mem_results_iff hmap fun c hc c' => ih c hc

theorem program_collapse_eq_ok_iff {p q : Program} :
    p.collapse = .ok q ↔ p.body.map Expr.collapse = q.body.map .ok := by
  rw [Program.collapse, ← collapseAll_eq_ok_iff]
  obtain ⟨body⟩ := q
  cases collapseAll .body 0 p.body <;> simp [Except.map]

theorem program_collapse_eq_self_iff (p : Program) :
    p.collapse = .ok p ↔ ∀ e ∈ p.body, e.Settled := by
  rw [program_collapse_eq_ok_iff, map_collapse_eq_self_iff]
  exact forall₂_congr fun e _ => collapse_eq_self_iff e

/-- A second pass over a program or an expression changes nothing exactly if the first one comes to
no node with the outlook of a chain. -/
theorem second_pass_changes_nothing_iff (p : Program) (e : Expr) :
    (∀ q, p.collapse = .ok q → (q.collapse = .ok q ↔ ∀ c ∈ p.body, c.StaysCollapsed)) ∧
    (∀ e', e.collapse = .ok e' → (e'.collapse = .ok e' ↔ e.StaysCollapsed)) := by
  constructor
  · intro q h
    rw [program_collapse_eq_self_iff]
    apply forall_mem_results_iff (program_collapse_eq_ok_iff.mp h)
    intro c _ c' hc
    exact settled_of_collapse_iff hc
  · intro e' h
    rw [collapse_eq_self_iff]
    exact settled_of_collapse_iff h

/-! ### A chain that stays collapsed, and one that does not -/

theorem collapseLiteral_ofText (tag tag' : Option Expr) (s : String)
    (h : tag.map Expr.collapse = tag'.map .ok) :
    collapseLiteral tag (.ofText s) = .ok (.ofLiteral tag' (.ofText s)) :=
  collapseLiteral_of_text tag tag' rfl h

/-- Three delimiters on either side of a body. -/
def tripled (tag : Option Expr) : Expr :=
  .close 1 (.tagged (opening tag 1) (.ofText "\n  g\n"))

theorem collapse_tripled (tag tag' : Option Expr)
    (hr : Tagged.resolve ⟨.tagged (opening tag 1) (.ofText "\n  g\n"), .trivial⟩ =
      some ⟨tag, .ofText "\n  g\n", 1⟩)
    (h : tag.map Expr.collapse = tag'.map .ok) :
    (tripled tag).collapse = .ok (.ofLiteral tag' (.ofText "g")) := by
  have hn : (Literal.ofText "\n  g\n" : Literal Expr).normalize = .ok (.ofText "g") := rfl
  rw [tripled, Expr.close, Expr.close, collapse_of_resolve_some hr, hn]
  exact collapseLiteral_ofText tag tag' "g" h

theorem program_collapse_singleton {e e' : Expr} (h : e.collapse = .ok e') :
    Program.collapse ⟨[e]⟩ = .ok ⟨[e']⟩ :=
  program_collapse_eq_ok_iff.mpr (congrArg (fun r => [r]) h)

theorem tripled_behind_a_name_stays_collapsed :
    Program.collapse ⟨[tripled (some (.identifier "sql"))]⟩ =
      .ok ⟨[.tagged (.identifier "sql") (.ofText "g")]⟩ ∧
    Program.collapse ⟨[.tagged (.identifier "sql") (.ofText "g")]⟩ =
      .ok ⟨[.tagged (.identifier "sql") (.ofText "g")]⟩ ∧
    (Expr.tagged (.identifier "sql") (.ofText "g")).collapse =
      .ok (.tagged (.identifier "sql") (.ofText "g")) := by
  have hname : (Expr.identifier "sql").collapse = .ok (.identifier "sql") := by
    rw [Expr.collapse]
  have hr : Tagged.resolve ⟨.tagged (opening (some (.identifier "sql")) 1) (.ofText "\n  g\n"),
      .trivial⟩ = some ⟨some (.identifier "sql"), .ofText "\n  g\n", 1⟩ := rfl
  have hfirst := collapse_tripled _ (some (.identifier "sql")) hr (congrArg some hname)
  have hprogram := program_collapse_singleton hfirst
  have hplain : (Expr.identifier "sql").outlook = .plain := by
    rw [Expr.outlook]
  have htag : (Expr.identifier "sql").StaysCollapsed :=
    staysCollapsed_iff.mpr ⟨by rw [hplain]; rfl, List.forall_mem_nil _⟩
  have hstays : (tripled (some (.identifier "sql"))).StaysCollapsed := by
    rw [tripled, Expr.close, Expr.close, staysCollapsed_iff, outlook_of_resolve_some hr,
      children_of_resolve_some hr, Option.map_some, hplain]
    exact ⟨rfl, List.forall_mem_singleton.mpr htag⟩
  obtain ⟨hprograms, hexpressions⟩ := second_pass_changes_nothing_iff
    ⟨[tripled (some (.identifier "sql"))]⟩ (tripled (some (.identifier "sql")))
  refine ⟨hprogram, (hprograms _ hprogram).mpr ?_, (hexpressions _ hfirst).mpr hstays⟩
  exact List.forall_mem_singleton.mpr hstays

/-- Seven delimiters in front of a body and three behind it. -/
def sevenAndThree : Expr :=
  .close 1 (.tagged (.close 2 (.template .trivial)) (.ofText "\n  g\n"))

/-- Six delimiters are an empty literal between three and three. -/
theorem collapse_three_pairs :
    (Expr.close 2 (.template .trivial)).collapse = .ok (.template .trivial) := by
  have hr : Tagged.resolve ⟨.tagged (.template .trivial) .trivial, .trivial⟩ =
      some ⟨none, .trivial, 1⟩ := rfl
  have hn : (Literal.trivial : Literal Expr).normalize = .ok .trivial := rfl
  rw [Expr.close, Expr.close, Expr.close, collapse_of_resolve_some hr, hn]
  exact collapseLiteral_ofText none none "" rfl

theorem collapse_sevenAndThree : sevenAndThree.collapse = .ok (tripled none) := by
  have hbody : (Expr.tagged (.close 2 (.template .trivial)) (.ofText "\n  g\n")).collapse =
      .ok (.tagged (.template .trivial) (.ofText "\n  g\n")) := by
    rw [collapse_of_resolve_none rfl]
    exact collapseLiteral_ofText (some _) (some _) _ (congrArg some collapse_three_pairs)
  rw [sevenAndThree, Expr.close, Expr.close, collapse_of_resolve_none rfl]
  exact collapseLiteral_ofText (some _) (some _) _ (congrArg some hbody)

theorem seven_and_three_collapse_twice :
    sevenAndThree.collapse = .ok (tripled none) ∧
    (tripled none).collapse ≠ .ok (tripled none) ∧
    Program.collapse ⟨[sevenAndThree]⟩ = .ok ⟨[tripled none]⟩ ∧
    Program.collapse ⟨[tripled none]⟩ ≠ .ok ⟨[tripled none]⟩ := by
  have hagain : (tripled none).collapse = .ok (.template (.ofText "g")) :=
    collapse_tripled none none rfl rfl
  have hne : (tripled none).collapse ≠ .ok (tripled none) := by
    rw [hagain]
    nofun
  refine ⟨collapse_sevenAndThree, hne, program_collapse_singleton collapse_sevenAndThree, ?_⟩
  intro h
  have hbody := program_collapse_eq_ok_iff.mp h
  exact hne (List.cons.inj hbody).1

end OverDelimited
