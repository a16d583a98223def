import OverDelimited.Proofs.Symmetry
import OverDelimited.Proofs.Walk

/-!
# Expressions that collapsing leaves alone

`Expr.children` are the nodes the walk goes on to, `Visits e n` says that it comes from `e` to `n`.
Collapsing changes nothing exactly if it comes to no node that resolves (`collapse_eq_self_iff`).
That a replaced chain is never put back as it was follows from the number of tagged literals, which
only ever falls.
-/

namespace OverDelimited

/-! ### Successful runs -/

theorem collapseAll_eq_ok_iff {step : Nat → Step} {i : Nat} {es es' : List Expr} :
    collapseAll step i es = .ok es' ↔ es.map Expr.collapse = es'.map .ok := by
  induction es generalizing i es' with
  | nil =>
    rw [collapseAll]
    cases es' <;> simp
  | cons e es ih =>
    rw [collapseAll]
    simp only [bind_eq_ok, mapError_eq_ok, ih, Except.ok.injEq]
    constructor
    · intro h
      obtain ⟨e', he, rest, hrest, heq⟩ := h
      subst heq
      rw [List.map_cons, List.map_cons, he, hrest]
    · intro h
      cases es' with
      | nil => cases h
      | cons e' rest =>
        simp only [List.map_cons, List.cons.injEq] at h
        exact ⟨e', h.1, rest, h.2, rfl⟩

theorem collapseLiteral_eq_ok_iff {tag : Option Expr} {l : Literal Expr} {e' : Expr} :
    collapseLiteral tag l = .ok e' ↔
      ∃ tag' ps, tag.map Expr.collapse = tag'.map .ok ∧
        l.placeholders.map Expr.collapse = ps.map .ok ∧
        e' = Expr.ofLiteral tag' (l.withPlaceholders ps) := by
  cases tag with
  | none =>
    simp only [collapseLiteral, bind_eq_ok, collapseAll_eq_ok_iff, Except.ok.injEq]
    constructor
    · intro h
      obtain ⟨ps, hps, heq⟩ := h
      exact ⟨none, ps, rfl, hps, heq.symm⟩
    · intro h
      obtain ⟨_ | tag', ps, htag, hps, heq⟩ := h
      · exact ⟨ps, hps, heq.symm⟩
      · cases htag
  | some t =>
    simp only [collapseLiteral, bind_eq_ok, mapError_eq_ok, collapseAll_eq_ok_iff,
      Except.ok.injEq]
    constructor
    · intro h
      obtain ⟨t', ht, ps, hps, heq⟩ := h
      exact ⟨some t', ps, congrArg some ht, hps, heq.symm⟩
    · intro h
      obtain ⟨_ | t', ps, htag, hps, heq⟩ := h
      · cases htag
      · exact ⟨t', Option.some.inj htag, ps, hps, heq.symm⟩

theorem collapse_replaced_eq_ok_iff {tag : Expr} {l body : Literal Expr} {r : Option Expr} {d : Nat}
    {e' : Expr} (hr : Tagged.resolve ⟨tag, l⟩ = some ⟨r, body, d⟩) :
    (Expr.tagged tag l).collapse = .ok e' ↔
      ∃ body', body.normalize = .ok body' ∧ collapseLiteral r body' = .ok e' := by
  rw [collapse_of_resolve_some hr]
  simp only [bind_eq_ok, mapError_eq_ok]

theorem collapse_call_eq_ok_iff {callee : Expr} {arguments : List Expr} {e' : Expr} :
    (Expr.call callee arguments).collapse = .ok e' ↔
      ∃ callee', callee.collapse = .ok callee' ∧
        ∃ arguments', arguments.map Expr.collapse = arguments'.map .ok ∧
          Expr.call callee' arguments' = e' := by
  rw [Expr.collapse]
  simp only [bind_eq_ok, mapError_eq_ok, collapseAll_eq_ok_iff, Except.ok.injEq]

theorem collapse_member_eq_ok_iff {object : Expr} {property : String} {e' : Expr} :
    (Expr.member object property).collapse = .ok e' ↔
      ∃ object', object.collapse = .ok object' ∧ Expr.member object' property = e' := by
  rw [Expr.collapse]
  simp only [bind_eq_ok, mapError_eq_ok, Except.ok.injEq]

theorem collapse_array_eq_ok_iff {elements : List Expr} {e' : Expr} :
    (Expr.array elements).collapse = .ok e' ↔
      ∃ elements', elements.map Expr.collapse = elements'.map .ok ∧
        Expr.array elements' = e' := by
  rw [Expr.collapse]
  simp only [bind_eq_ok, collapseAll_eq_ok_iff, Except.ok.injEq]

theorem length_eq_of_map_eq {ps ps' : List Expr}
    (h : ps.map Expr.collapse = ps'.map .ok) : ps'.length = ps.length := by
  have hlen := congrArg List.length h
  simp only [List.length_map] at hlen
  exact hlen.symm

section Results

variable {α β : Type} {run : α → Except Fault Expr} {f : α → β} {g : Expr → β}

theorem map_eq_of_results {xs : List α} {es' : List Expr} (h : xs.map run = es'.map .ok)
    (hrun : ∀ x ∈ xs, ∀ e', run x = .ok e' → g e' = f x) : es'.map g = xs.map f := by
  induction xs generalizing es' with
  | nil =>
    cases es' with
    | nil => rfl
    | cons e' es' => cases h
  | cons x xs ih =>
    cases es' with
    | nil => cases h
    | cons e' es' =>
      simp only [List.map_cons, List.cons.injEq] at h
      have hx := hrun x (List.mem_cons_self ..) e' h.1
      have hxs := ih h.2 fun y hy => hrun y (List.mem_cons_of_mem _ hy)
      rw [List.map_cons, List.map_cons, hx, hxs]

theorem tag_map_eq_of_results {tag : Option α} {tag' : Option Expr}
    (h : tag.map run = tag'.map .ok)
    (hrun : ∀ t ∈ tag, ∀ t', run t = .ok t' → g t' = f t) : tag'.map g = tag.map f := by
  cases tag with
  | none => cases tag' with
    | none => rfl
    | some t' => cases h
  | some t => cases tag' with
    | none => cases h
    | some t' => exact congrArg some (hrun t rfl t' (Option.some.inj h))

end Results

theorem withPlaceholders_self (l : Literal Expr) : l.withPlaceholders l.placeholders = l := by
  induction l with
  | text s => rfl
  | hole s p rest ih => simp only [Literal.placeholders, Literal.withPlaceholders, ih]

theorem collapseLiteral_of_text (tag tag' : Option Expr) {l : Literal Expr}
    (hl : l.placeholders = []) (h : tag.map Expr.collapse = tag'.map .ok) :
    collapseLiteral tag l = .ok (.ofLiteral tag' l) := by
  have hps : l.placeholders.map Expr.collapse = l.placeholders.map .ok := by
    rw [hl]
    rfl
  refine collapseLiteral_eq_ok_iff.mpr ⟨tag', l.placeholders, h, hps, ?_⟩
  rw [withPlaceholders_self]

/-! ### Where the walk goes -/

def Expr.resolves : Expr → Bool
  | .tagged tag l => (Tagged.resolve ⟨tag, l⟩).isSome
  | _ => false

/-- The nodes to which the walk goes on from an expression. -/
def Expr.children : Expr → List Expr
  | .identifier _ => []
  | .string _ => []
  | .template l => l.placeholders
  | .tagged tag l =>
    match Tagged.resolve ⟨tag, l⟩ with
    | none => tag :: l.placeholders
    | some ⟨r, body, _⟩ => r.toList ++ body.placeholders
  | .call callee arguments => callee :: arguments
  | .member object _ => [object]
  | .array elements => elements

/-- `Visits e n`: the walk that starts at `e` comes to `n`. -/
inductive Visits : Expr → Expr → Prop
  | here (e : Expr) : Visits e e
  | child {e c n : Expr} (hc : c ∈ e.children) (h : Visits c n) : Visits e n

theorem forall_visits_iff {P : Expr → Prop} {e : Expr} :
    (∀ n, Visits e n → P n) ↔ P e ∧ ∀ c ∈ e.children, ∀ n, Visits c n → P n := by
  constructor
  · intro h
    exact ⟨h e (.here e), fun c hc n hn => h n (.child hc hn)⟩
  · intro h n hn
    cases hn with
    | here => exact h.1
    | child hc hn => exact h.2 _ hc n hn

theorem children_of_resolve_none {tag : Expr} {l : Literal Expr}
    (h : Tagged.resolve ⟨tag, l⟩ = none) :
    (Expr.tagged tag l).children = tag :: l.placeholders := by
  simp only [Expr.children, h]

theorem children_of_resolve_some {tag : Expr} {l body : Literal Expr} {r : Option Expr} {d : Nat}
    (h : Tagged.resolve ⟨tag, l⟩ = some ⟨r, body, d⟩) :
    (Expr.tagged tag l).children = r.toList ++ body.placeholders := by
  simp only [Expr.children, h]

theorem children_ofLiteral {tag : Option Expr} {l : Literal Expr}
    (h : (Expr.ofLiteral tag l).resolves = false) :
    (Expr.ofLiteral tag l).children = tag.toList ++ l.placeholders := by
  cases tag with
  | none => rfl
  | some t =>
    have hr : Tagged.resolve ⟨t, l⟩ = none := by simpa [Expr.ofLiteral, Expr.resolves] using h
    exact children_of_resolve_none hr

theorem Expr.children_induction {motive : Expr → Prop}
    (step : ∀ e, (∀ c ∈ e.children, motive c) → motive e) (e : Expr) : motive e := by
  induction e using Expr.walk_induction with
  | identifier name => exact step _ nofun
  | string value => exact step _ nofun
  | template l ih => exact step _ ih
  | kept tag l hr ihtag ih =>
    apply step
    rw [children_of_resolve_none hr]
    exact List.forall_mem_cons.mpr ⟨ihtag, ih⟩
  | replaced tag l r body d hr ihr ih =>
    apply step
    rw [children_of_resolve_some hr]
    intro c hc
    rcases List.mem_append.mp hc with hc | hc
    · exact ihr c (Option.mem_toList.mp hc)
    · exact ih c hc
  | call callee arguments ihcallee ih =>
    exact step _ (List.forall_mem_cons.mpr ⟨ihcallee, ih⟩)
  | member object property ih =>
    exact step _ (List.forall_mem_cons.mpr ⟨ih, nofun⟩)
  | array elements ih => exact step _ ih

/-! ### What a run makes of the children -/

/-- Collapsing an expression collapses the nodes the walk goes on to, unless the result resolves
once more. -/
theorem map_children_of_collapse {e e' : Expr} (h : e.collapse = .ok e')
    (hr' : e'.resolves = false) : e.children.map Expr.collapse = e'.children.map .ok := by
  have literal : ∀ {tag : Option Expr} {l : Literal Expr}, collapseLiteral tag l = .ok e' →
      (tag.toList ++ l.placeholders).map Expr.collapse = e'.children.map .ok := by
    intro tag l hlit
    obtain ⟨tag', ps, htag, hps, heq⟩ := collapseLiteral_eq_ok_iff.mp hlit
    subst heq
    rw [children_ofLiteral hr',
      Literal.placeholders_withPlaceholders l ps (length_eq_of_map_eq hps), List.map_append,
      List.map_append, hps]
    cases tag with
    | none => cases tag' with
      | none => rfl
      | some t' => cases htag
    | some t => cases tag' with
      | none => cases htag
      | some t' => simp [Option.some.inj htag]
  cases e with
  | identifier name =>
    rw [Expr.collapse] at h
    cases h
    rfl
  | string value =>
    rw [Expr.collapse] at h
    cases h
    rfl
  | template l =>
    rw [collapse_template] at h
    exact literal h
  | tagged tag l =>
    cases hr : Tagged.resolve ⟨tag, l⟩ with
    | none =>
      rw [collapse_of_resolve_none hr] at h
      rw [children_of_resolve_none hr]
      exact literal h
    | some m =>
      obtain ⟨r, body, d⟩ := m
      obtain ⟨body', hn, hlit⟩ := (collapse_replaced_eq_ok_iff hr).mp h
      rw [children_of_resolve_some hr, ← placeholders_normalize hn]
      exact literal hlit
  | call callee arguments =>
    obtain ⟨callee', hcallee, arguments', hargs, rfl⟩ := collapse_call_eq_ok_iff.mp h
    simp only [Expr.children, List.map_cons, hcallee, hargs]
  | member object property =>
    obtain ⟨object', hobject, rfl⟩ := collapse_member_eq_ok_iff.mp h
    simp only [Expr.children, List.map_cons, List.map_nil, hobject]
  | array elements =>
    obtain ⟨elements', helems, rfl⟩ := collapse_array_eq_ok_iff.mp h
    exact helems

theorem collapse_eq_self_of_children {e : Expr} (hr : e.resolves = false)
    (h : e.children.map Expr.collapse = e.children.map .ok) : e.collapse = .ok e := by
  cases e with
  | identifier name => rw [Expr.collapse]
  | string value => rw [Expr.collapse]
  | template l =>
    rw [collapse_template, collapseLiteral_eq_ok_iff]
    exact ⟨none, l.placeholders, rfl, h, by rw [withPlaceholders_self]; rfl⟩
  | tagged tag l =>
    have hnone : Tagged.resolve ⟨tag, l⟩ = none := by simpa [Expr.resolves] using hr
    rw [children_of_resolve_none hnone, List.map_cons, List.map_cons, List.cons.injEq] at h
    rw [collapse_of_resolve_none hnone, collapseLiteral_eq_ok_iff]
    exact ⟨some tag, l.placeholders, congrArg some h.1, h.2, by rw [withPlaceholders_self]; rfl⟩
  | call callee arguments =>
    simp only [Expr.children, List.map_cons, List.cons.injEq] at h
    exact collapse_call_eq_ok_iff.mpr ⟨callee, h.1, arguments, h.2, rfl⟩
  | member object property =>
    simp only [Expr.children, List.map_cons, List.cons.injEq] at h
    exact collapse_member_eq_ok_iff.mpr ⟨object, h.1, rfl⟩
  | array elements => exact collapse_array_eq_ok_iff.mpr ⟨elements, h, rfl⟩

/-! ### The number of tagged literals -/

mutual
/-- How many tagged literals an expression holds, at any depth. -/
def Expr.taggedCount : Expr → Nat
  | .identifier _ => 0
  | .string _ => 0
  | .template l => taggedCountLiteral l
  | .tagged tag l => tag.taggedCount + taggedCountLiteral l + 1
  | .call callee arguments => callee.taggedCount + taggedCountAll arguments
  | .member object _ => object.taggedCount
  | .array elements => taggedCountAll elements

def taggedCountLiteral : Literal Expr → Nat
  | .text _ => 0
  | .hole _ p rest => p.taggedCount + taggedCountLiteral rest

def taggedCountAll : List Expr → Nat
  | [] => 0
  | e :: es => e.taggedCount + taggedCountAll es
end

theorem taggedCountLiteral_eq (l : Literal Expr) :
    taggedCountLiteral l = taggedCountAll l.placeholders := by
  induction l with
  | text s => rfl
  | hole s p rest ih => simp only [taggedCountLiteral, Literal.placeholders, taggedCountAll, ih]

theorem taggedCount_of_closes {d : Nat} {x e : Expr} (h : Closes d x e) :
    e.taggedCount = x.taggedCount + d := by
  induction h with
  | refl => rfl
  | layer _ hl ih =>
    obtain ⟨s, rfl⟩ := exists_text_of_isTrivial hl
    simp only [Expr.taggedCount, taggedCountLiteral, ih]
    omega

theorem taggedCount_of_resolve {tag : Expr} {l body : Literal Expr} {r : Option Expr} {d : Nat}
    (h : Tagged.resolve ⟨tag, l⟩ = some ⟨r, body, d⟩) :
    (Expr.ofLiteral r body).taggedCount < (Expr.tagged tag l).taggedCount := by
  obtain ⟨k, u, rfl, -, hc, hbal⟩ := Tagged.resolve_eq_some_iff.mp h
  have hclosing := taggedCount_of_closes hc
  simp only [Tagged.toExpr, Expr.taggedCount] at hclosing
  cases r with
  | none =>
    simp only [Expr.ofLiteral, Expr.taggedCount]
    omega
  | some t =>
    have hopening := taggedCount_of_closes (balance_eq_tag_iff.mp hbal).2
    simp only [Expr.ofLiteral, Expr.taggedCount]
    omega

theorem taggedCountAll_le {es es' : List Expr} (h : es.map Expr.collapse = es'.map .ok)
    (ih : ∀ e ∈ es, ∀ e', e.collapse = .ok e' → e'.taggedCount ≤ e.taggedCount) :
    taggedCountAll es' ≤ taggedCountAll es := by
  induction es generalizing es' with
  | nil =>
    cases es' with
    | nil => exact Nat.le_refl _
    | cons e' es' => cases h
  | cons e es ihes =>
    cases es' with
    | nil => cases h
    | cons e' es' =>
      simp only [List.map_cons, List.cons.injEq] at h
      have he := ih e (List.mem_cons_self ..) e' h.1
      have hes := ihes h.2 fun c hc => ih c (List.mem_cons_of_mem _ hc)
      simp only [taggedCountAll]
      omega

theorem taggedCount_le_of_collapseLiteral {tag : Option Expr} {l : Literal Expr} {e' : Expr}
    (h : collapseLiteral tag l = .ok e')
    (ihtag : ∀ t ∈ tag, ∀ t', t.collapse = .ok t' → t'.taggedCount ≤ t.taggedCount)
    (ih : ∀ p ∈ l.placeholders, ∀ p', p.collapse = .ok p' → p'.taggedCount ≤ p.taggedCount) :
    e'.taggedCount ≤ (Expr.ofLiteral tag l).taggedCount := by
  obtain ⟨tag', ps, htag, hps, heq⟩ := collapseLiteral_eq_ok_iff.mp h
  subst heq
  have hlen := length_eq_of_map_eq hps
  have hle := taggedCountAll_le hps ih
  rw [← Literal.placeholders_withPlaceholders l ps hlen, ← taggedCountLiteral_eq,
    ← taggedCountLiteral_eq] at hle
  cases tag with
  | none => cases tag' with
    | none => exact hle
    | some t' => cases htag
  | some t => cases tag' with
    | none => cases htag
    | some t' =>
      have ht := ihtag t rfl t' (Option.some.inj htag)
      simp only [Expr.ofLiteral, Expr.taggedCount]
      omega

theorem taggedCount_ofLiteral_congr (tag : Option Expr) {l l' : Literal Expr}
    (h : l'.placeholders = l.placeholders) :
    (Expr.ofLiteral tag l').taggedCount = (Expr.ofLiteral tag l).taggedCount := by
  cases tag <;> simp only [Expr.ofLiteral, Expr.taggedCount, taggedCountLiteral_eq, h]

theorem taggedCount_lt_of_replaced {tag : Expr} {l body : Literal Expr} {r : Option Expr} {d : Nat}
    {e' : Expr} (hr : Tagged.resolve ⟨tag, l⟩ = some ⟨r, body, d⟩)
    (h : (Expr.tagged tag l).collapse = .ok e')
    (ihr : ∀ t ∈ r, ∀ t', t.collapse = .ok t' → t'.taggedCount ≤ t.taggedCount)
    (ih : ∀ p ∈ body.placeholders, ∀ p', p.collapse = .ok p' → p'.taggedCount ≤ p.taggedCount) :
    e'.taggedCount < (Expr.tagged tag l).taggedCount := by
  obtain ⟨body', hn, hlit⟩ := (collapse_replaced_eq_ok_iff hr).mp h
  have hps := placeholders_normalize hn
  have hle := taggedCount_le_of_collapseLiteral hlit ihr fun p hp => ih p (hps ▸ hp)
  have hlt := taggedCount_of_resolve hr
  rw [taggedCount_ofLiteral_congr r hps] at hle
  omega

theorem taggedCount_le_of_collapse {e e' : Expr} (h : e.collapse = .ok e') :
    e'.taggedCount ≤ e.taggedCount := by
  induction e using Expr.walk_induction generalizing e' with
  | identifier name =>
    rw [Expr.collapse] at h
    cases h
    exact Nat.le_refl _
  | string value =>
    rw [Expr.collapse] at h
    cases h
    exact Nat.le_refl _
  | template l ih =>
    rw [collapse_template] at h
    exact taggedCount_le_of_collapseLiteral h (fun t ht => absurd ht (Option.not_mem_none t))
      fun p hp p' => ih p hp
  | kept tag l hr ihtag ih =>
    rw [collapse_of_resolve_none hr] at h
    refine taggedCount_le_of_collapseLiteral h (fun t ht t' ht' => ?_) fun p hp p' => ih p hp
    cases ht
    exact ihtag ht'
  | replaced tag l r body d hr ihr ih =>
    have hlt := taggedCount_lt_of_replaced hr h (fun t ht t' => ihr t ht) fun p hp p' => ih p hp
    exact Nat.le_of_lt hlt
  | call callee arguments ihcallee ih =>
    obtain ⟨callee', hcallee, arguments', hargs, rfl⟩ := collapse_call_eq_ok_iff.mp h
    have hc := ihcallee hcallee
    have has := taggedCountAll_le hargs fun a ha a' => ih a ha
    simp only [Expr.taggedCount]
    omega
  | member object property ih =>
    obtain ⟨object', hobject, rfl⟩ := collapse_member_eq_ok_iff.mp h
    have ho := ih hobject
    simpa only [Expr.taggedCount] using ho
  | array elements ih =>
    obtain ⟨elements', helems, rfl⟩ := collapse_array_eq_ok_iff.mp h
    exact taggedCountAll_le helems fun a ha a' => ih a ha

/-! ### Fixed points -/

/-- Nothing to which the walk comes from the expression is over-delimited. -/
def Expr.Settled (e : Expr) : Prop :=
  ∀ n, Visits e n → n.resolves = false

theorem settled_iff {e : Expr} :
    e.Settled ↔ e.resolves = false ∧ ∀ c ∈ e.children, c.Settled :=
  forall_visits_iff

theorem resolves_of_collapse_self {e : Expr} (h : e.collapse = .ok e) : e.resolves = false := by
  cases e with
  | tagged tag l =>
    cases hr : Tagged.resolve ⟨tag, l⟩ with
    | none => simp [Expr.resolves, hr]
    | some m =>
      obtain ⟨r, body, d⟩ := m
      have hlt := taggedCount_lt_of_replaced hr h (fun _ _ _ => taggedCount_le_of_collapse)
        fun _ _ _ => taggedCount_le_of_collapse
      exact absurd hlt (Nat.lt_irrefl _)
  | _ => rfl

theorem map_collapse_eq_self_iff {es : List Expr} :
    es.map Expr.collapse = es.map .ok ↔ ∀ e ∈ es, e.collapse = .ok e :=
  List.map_inj_left

theorem collapse_eq_self_iff (e : Expr) : e.collapse = .ok e ↔ e.Settled := by
  induction e using Expr.children_induction with
  | step e ih =>
    rw [settled_iff]
    constructor
    · intro h
      have hr := resolves_of_collapse_self h
      have hc := map_collapse_eq_self_iff.mp (map_children_of_collapse h hr)
      exact ⟨hr, fun c hcmem => (ih c hcmem).mp (hc c hcmem)⟩
    · intro h
      refine collapse_eq_self_of_children h.1 (map_collapse_eq_self_iff.mpr fun c hcmem => ?_)
      exact (ih c hcmem).mpr (h.2 c hcmem)

end OverDelimited
