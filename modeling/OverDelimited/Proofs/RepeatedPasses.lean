import OverDelimited.Proofs.SecondPass

/-!
# Repeated passes

One pass need not be enough, since its result can hold chains that were none before.  But each pass
that changes anything takes tagged literals away and none ever adds one (`eq_of_collapse`).  So a
program is collapsed to the end, or to its first malformed literal, after at most as many passes as
it has tagged literals.
-/

namespace OverDelimited

/-! ### A pass that takes no tagged literal away -/

theorem eq_of_results {es es' : List Expr} (h : es.map Expr.collapse = es'.map .ok)
    (hcount : taggedCountAll es ≤ taggedCountAll es')
    (ih : ∀ e ∈ es, ∀ e', e.collapse = .ok e' → e.taggedCount ≤ e'.taggedCount → e' = e) :
    es' = es := by
  induction es generalizing es' with
  | nil =>
    cases es' with
    | nil => rfl
    | cons e' es' => cases h
  | cons e es ihes =>
    cases es' with
    | nil => cases h
    | cons e' es' =>
      simp only [List.map_cons, List.cons.injEq] at h
      simp only [taggedCountAll] at hcount
      -- no result gains any, so that none makes up for what another loses
      have hfirst := taggedCount_le_of_collapse h.1
      have hothers := taggedCountAll_le h.2 fun c _ c' => taggedCount_le_of_collapse
      have he := ih e (List.mem_cons_self ..) e' h.1 (by omega)
      have hes := ihes h.2 (by omega) fun c hc => ih c (List.mem_cons_of_mem _ hc)
      rw [he, hes]

theorem eq_of_collapseLiteral {tag : Option Expr} {l : Literal Expr} {e' : Expr}
    (h : collapseLiteral tag l = .ok e')
    (hcount : (Expr.ofLiteral tag l).taggedCount ≤ e'.taggedCount)
    (ihtag : ∀ t ∈ tag, ∀ t', t.collapse = .ok t' → t.taggedCount ≤ t'.taggedCount → t' = t)
    (ih : ∀ p ∈ l.placeholders, ∀ p', p.collapse = .ok p' → p.taggedCount ≤ p'.taggedCount →
      p' = p) :
    e' = Expr.ofLiteral tag l := by
  obtain ⟨tag', ps, htag, hps, rfl⟩ := collapseLiteral_eq_ok_iff.mp h
  have hlen := length_eq_of_map_eq hps
  have hle := taggedCountAll_le hps fun p _ p' => taggedCount_le_of_collapse
  have hliteral : taggedCountLiteral (l.withPlaceholders ps) = taggedCountAll ps := by
    rw [taggedCountLiteral_eq, Literal.placeholders_withPlaceholders l ps hlen]
  have hl := taggedCountLiteral_eq l
  have same : taggedCountAll l.placeholders ≤ taggedCountAll ps → l.withPlaceholders ps = l := by
    intro hcount
    rw [eq_of_results hps hcount ih, withPlaceholders_self]
  cases tag with
  | none => cases tag' with
    | some t' => cases htag
    | none =>
      simp only [Expr.ofLiteral, Expr.taggedCount] at hcount
      rw [same (by omega)]
  | some t => cases tag' with
    | none => cases htag
    | some t' =>
      have ht := Option.some.inj htag
      have htle := taggedCount_le_of_collapse ht
      simp only [Expr.ofLiteral, Expr.taggedCount] at hcount
      rw [same (by omega), ihtag t rfl t' ht (by omega)]

theorem eq_of_collapse {e e' : Expr} (h : e.collapse = .ok e')
    (hcount : e.taggedCount ≤ e'.taggedCount) : e' = e := by
  induction e using Expr.walk_induction generalizing e' with
  | identifier name =>
    rw [Expr.collapse] at h
    cases h
    rfl
  | string value =>
    rw [Expr.collapse] at h
    cases h
    rfl
  | template l ih =>
    rw [collapse_template] at h
    exact eq_of_collapseLiteral h hcount (fun t ht => absurd ht (Option.not_mem_none t))
      fun p hp p' => ih p hp
  | kept tag l hr ihtag ih =>
    rw [collapse_of_resolve_none hr] at h
    refine eq_of_collapseLiteral h hcount (fun t ht t' => ?_) fun p hp p' => ih p hp
    cases ht
    exact ihtag
  | replaced tag l r body d hr ihr ih =>
    have hlt := taggedCount_lt_of_replaced hr h (fun t _ t' => taggedCount_le_of_collapse)
      fun p _ p' => taggedCount_le_of_collapse
    omega
  | call callee arguments ihcallee ih =>
    obtain ⟨callee', hcallee, arguments', hargs, rfl⟩ := collapse_call_eq_ok_iff.mp h
    have hc := taggedCount_le_of_collapse hcallee
    have has := taggedCountAll_le hargs fun a _ a' => taggedCount_le_of_collapse
    simp only [Expr.taggedCount] at hcount
    rw [ihcallee hcallee (by omega), eq_of_results hargs (by omega) fun a ha a' => ih a ha]
  | member object property ih =>
    obtain ⟨object', hobject, rfl⟩ := collapse_member_eq_ok_iff.mp h
    simp only [Expr.taggedCount] at hcount
    rw [ih hobject hcount]
  | array elements ih =>
    obtain ⟨elements', helems, rfl⟩ := collapse_array_eq_ok_iff.mp h
    simp only [Expr.taggedCount] at hcount
    rw [eq_of_results helems hcount fun a ha a' => ih a ha]

/-! ### Passes over a program -/

/-- How many tagged literals a program holds, at any depth. -/
def Program.taggedCount (p : Program) : Nat :=
  taggedCountAll p.body

/-- What the given number of passes makes of a program. -/
def Program.passes : Nat → Program → Except Fault Program
  | 0, p => .ok p
  | k + 1, p => p.collapse >>= passes k

theorem taggedCount_le_of_pass {p q : Program} (h : p.collapse = .ok q) :
    q.taggedCount ≤ p.taggedCount := by
  have hbody := program_collapse_eq_ok_iff.mp h
  exact taggedCountAll_le hbody fun e _ e' => taggedCount_le_of_collapse

theorem taggedCount_lt_of_pass {p q : Program} (h : p.collapse = .ok q) (hne : q ≠ p) :
    q.taggedCount < p.taggedCount := by
  have hbody := program_collapse_eq_ok_iff.mp h
  apply Classical.byContradiction
  intro hlt
  have hcount : taggedCountAll p.body ≤ taggedCountAll q.body := Nat.le_of_not_lt hlt
  have heq := eq_of_results hbody hcount fun e _ e' => eq_of_collapse
  exact hne (congrArg Program.mk heq)

theorem passes_succ {p q : Program} (h : p.collapse = .ok q) (k : Nat) :
    p.passes (k + 1) = q.passes k := by
  rw [Program.passes, h]
  rfl

theorem passes_of_fixed {p : Program} (h : p.collapse = .ok p) (k : Nat) : p.passes k = .ok p := by
  induction k with
  | zero => rfl
  | succ k ih => rw [passes_succ h, ih]

theorem passes_of_fault {p : Program} {f : Fault} (h : p.collapse = .error f) (k : Nat) :
    p.passes (k + 1) = .error f := by
  rw [Program.passes, h]
  rfl

/-- The passes over `p` come to `q` by `k` passes each of which changes something, and from there
on change nothing or fail. -/
structure Program.EndsAfter (p : Program) (k : Nat) (q : Program) : Prop where
  reached : p.passes k = .ok q
  changing : ∀ i < k, ∃ r r', p.passes i = .ok r ∧ r.collapse = .ok r' ∧ r' ≠ r
  final : (q.collapse = .ok q ∧ ∀ m, p.passes (k + m) = .ok q) ∨
    ∃ f, q.collapse = .error f ∧ ∀ m, p.passes (k + m + 1) = .error f

theorem Program.EndsAfter.step {p q r : Program} {k : Nat} (h : p.collapse = .ok q) (hne : q ≠ p)
    (hq : q.EndsAfter k r) : p.EndsAfter (k + 1) r := by
  refine ⟨?_, fun i hi => ?_, ?_⟩
  · rw [passes_succ h]
    exact hq.reached
  · cases i with
    | zero => exact ⟨p, q, rfl, h, hne⟩
    | succ i =>
      rw [passes_succ h]
      exact hq.changing i (by omega)
  · rcases hq.final with ⟨hfixed, hafter⟩ | ⟨f, hfault, hafter⟩
    · refine .inl ⟨hfixed, fun m => ?_⟩
      rw [Nat.add_right_comm, passes_succ h]
      exact hafter m
    · refine .inr ⟨f, hfault, fun m => ?_⟩
      rw [Nat.add_right_comm k 1 m, passes_succ h]
      exact hafter m

theorem exists_endsAfter (p : Program) :
    ∃ k q, k + q.taggedCount ≤ p.taggedCount ∧ p.EndsAfter k q := by
  induction hn : p.taggedCount using Nat.strongRecOn generalizing p with
  | ind n ih =>
    subst hn
    cases hp : p.collapse with
    | error f =>
      refine ⟨0, p, by omega, rfl, nofun, .inr ⟨f, hp, fun m => ?_⟩⟩
      rw [Nat.zero_add]
      exact passes_of_fault hp m
    | ok q =>
      by_cases hq : q = p
      · subst hq
        refine ⟨0, q, by omega, rfl, nofun, .inl ⟨hp, fun m => ?_⟩⟩
        rw [Nat.zero_add]
        exact passes_of_fixed hp m
      · have hlt := taggedCount_lt_of_pass hp hq
        obtain ⟨k, r, hcount, hends⟩ := ih _ hlt q rfl
        exact ⟨k + 1, r, by omega, hends.step hp hq⟩

/-- No pass adds a tagged literal, and one that changes anything takes some away.  So the passes
over a program end, after at most as many changing ones as it has tagged literals, in a malformed
literal or in a program that no further pass changes. -/
theorem repeated_passes_settle (p : Program) :
    (∀ q, p.collapse = .ok q →
      q.taggedCount ≤ p.taggedCount ∧ (q ≠ p → q.taggedCount < p.taggedCount)) ∧
    ∃ k q, k ≤ p.taggedCount ∧ p.EndsAfter k q := by
  refine ⟨fun q h => ⟨taggedCount_le_of_pass h, taggedCount_lt_of_pass h⟩, ?_⟩
  obtain ⟨k, q, hcount, hends⟩ := exists_endsAfter p
  exact ⟨k, q, by omega, hends⟩

theorem seven_and_three_settle :
    Program.collapse ⟨[sevenAndThree]⟩ = .ok ⟨[tripled none]⟩ ∧
    Program.taggedCount ⟨[sevenAndThree]⟩ = 4 ∧ Program.taggedCount ⟨[tripled none]⟩ = 2 ∧
    Program.taggedCount ⟨[tripled none]⟩ < Program.taggedCount ⟨[sevenAndThree]⟩ ∧
    ∃ k q, k ≤ 4 ∧ Program.EndsAfter ⟨[sevenAndThree]⟩ k q := by
  have hpass := program_collapse_singleton collapse_sevenAndThree
  have hne : Program.mk [tripled none] ≠ ⟨[sevenAndThree]⟩ := by
    intro h
    have hcount := congrArg Program.taggedCount h
    cases hcount
  obtain ⟨hpasses, hends⟩ := repeated_passes_settle ⟨[sevenAndThree]⟩
  exact ⟨hpass, rfl, rfl, (hpasses _ hpass).2 hne, hends⟩

end OverDelimited
