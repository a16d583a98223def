import OverDelimited.Collapse
import OverDelimited.Proofs.Spine

/-!
# The walk, one node at a time

Collapsing and diagnosing pass over several closing layers at once.  Here both are given by
equations that look at one node only: a tagged literal that does not resolve is left in its place,
one that resolves gives way to a literal, and either way the walk goes on to the tag and the
placeholders of the literal that then stands there.  `Expr.walk_induction` is the induction that
goes with these equations; no later module opens the recursion through the spine.
-/

namespace OverDelimited

/-! ### Computations that can fail -/

section Except

variable {α β ε ε' ε'' : Type}

theorem mapError_bind (f : ε → ε') (x : Except ε α) (g : α → Except ε β) :
    (x >>= g).mapError f = x.mapError f >>= fun a => (g a).mapError f := by
  cases x <;> rfl

theorem mapError_mapError (f : ε → ε') (g : ε' → ε'') (x : Except ε α) :
    (x.mapError f).mapError g = x.mapError fun e => g (f e) := by
  cases x <;> rfl

theorem bind_eq_ok {x : Except ε α} {g : α → Except ε β} {b : β} :
    x >>= g = .ok b ↔ ∃ a, x = .ok a ∧ g a = .ok b := by
  cases x with
  | error e =>
    constructor
    · intro h
      cases h
    · intro h
      obtain ⟨a, h, -⟩ := h
      cases h
  | ok a =>
    constructor
    · intro h
      exact ⟨a, rfl, h⟩
    · intro h
      obtain ⟨a', h, hg⟩ := h
      cases h
      exact hg

theorem mapError_eq_ok {f : ε → ε'} {x : Except ε α} {a : α} :
    x.mapError f = .ok a ↔ x = .ok a := by
  cases x with
  | error e =>
    constructor
    · intro h
      cases h
    · intro h
      cases h
  | ok b =>
    constructor
    · intro h
      cases h
      rfl
    · intro h
      cases h
      rfl

theorem map_eq_ok {f : α → β} {x : Except ε α} {b : β} :
    x.map f = .ok b ↔ ∃ a, x = .ok a ∧ f a = b := by
  cases x with
  | error e =>
    constructor
    · intro h
      cases h
    · intro h
      obtain ⟨a, h, -⟩ := h
      cases h
  | ok a =>
    constructor
    · intro h
      cases h
      exact ⟨a, rfl, rfl⟩
    · intro h
      obtain ⟨a', h, rfl⟩ := h
      cases h
      rfl

end Except

theorem underTags_succ (k : Nat) (f : Fault) :
    f.underTags (k + 1) = (f.underTags k).under .tag := rfl

theorem mapError_underTags_zero {α : Type} (x : Except Fault α) :
    x.mapError (Fault.underTags 0) = x := by
  cases x <;> rfl

/-! ### Literals -/

theorem exists_text_of_isTrivial {l : Literal Expr} (h : l.isTrivial = true) :
    ∃ s, l = .text s := by
  cases l with
  | text s => exact ⟨s, rfl⟩
  | hole s p rest => cases h

section Placeholders

variable {α ε : Type}

theorem mapSegmentsFrom_text_eq_ok {f : Nat → Segment → Except ε Segment} {i : Nat} {s : Segment}
    {l' : Literal α} :
    (Literal.text s).mapSegmentsFrom f i = .ok l' ↔ ∃ s', f i s = .ok s' ∧ .text s' = l' := by
  rw [Literal.mapSegmentsFrom, map_eq_ok]

theorem mapSegmentsFrom_hole_eq_ok {f : Nat → Segment → Except ε Segment} {i : Nat} {s : Segment}
    {p : α} {rest l' : Literal α} :
    (Literal.hole s p rest).mapSegmentsFrom f i = .ok l' ↔
      ∃ s', f i s = .ok s' ∧ ∃ rest', rest.mapSegmentsFrom f (i + 1) = .ok rest' ∧
        .hole s' p rest' = l' := by
  rw [Literal.mapSegmentsFrom]
  cases f i s with
  | error e => simp
  | ok s' => simp [map_eq_ok]

theorem placeholders_mapSegmentsFrom {f : Nat → Segment → Except ε Segment} {i : Nat}
    {l l' : Literal α} (h : l.mapSegmentsFrom f i = .ok l') : l'.placeholders = l.placeholders := by
  induction l generalizing i l' with
  | text s =>
    obtain ⟨s', -, rfl⟩ := mapSegmentsFrom_text_eq_ok.mp h
    rfl
  | hole s p rest ih =>
    obtain ⟨s', -, rest', hrest, rfl⟩ := mapSegmentsFrom_hole_eq_ok.mp h
    simp only [Literal.placeholders, ih hrest]

theorem placeholders_normalize {l l' : Literal α} (h : l.normalize = .ok l') :
    l'.placeholders = l.placeholders := by
  unfold Literal.normalize at h
  split at h
  · cases h
  · exact placeholders_mapSegmentsFrom h

end Placeholders

/-- A literal with a tag in front of it or without. -/
def Expr.ofLiteral : Option Expr → Literal Expr → Expr
  | none, l => .template l
  | some tag, l => .tagged tag l

/-- Collapses the tag and the placeholders of a literal, and not the literal itself. -/
def collapseLiteral : Option Expr → Literal Expr → Except Fault Expr
  | none, l => do
    let ps ← collapseAll .placeholder 0 l.placeholders
    .ok (.template (l.withPlaceholders ps))
  | some tag, l => do
    let tag' ← tag.collapse.mapError (Fault.under .tag)
    let ps ← collapseAll .placeholder 0 l.placeholders
    .ok (.tagged tag' (l.withPlaceholders ps))

/-- The faults in the tag and in the placeholders of a literal. -/
def diagnoseLiteral (tag : Option Expr) (l : Literal Expr) : List Fault :=
  (match tag with
    | none => []
    | some tag => tag.diagnose.map (Fault.under .tag)) ++
    diagnoseAll .placeholder 0 l.placeholders

theorem diagnoseLiteral_congr (tag : Option Expr) {l l' : Literal Expr}
    (h : l'.placeholders = l.placeholders) : diagnoseLiteral tag l' = diagnoseLiteral tag l := by
  simp only [diagnoseLiteral, h]

/-! ### Collapsing a node -/

/-- What collapsing makes of a tagged literal once its spine is known. -/
def Tagged.Stop.collapse : Tagged.Stop → Except Fault Expr
  | ⟨passed, node, none⟩ => Except.mapError (Fault.underTags passed.length) do
    let tag' ← node.tag.collapse.mapError (Fault.under .tag)
    let ps ← collapseAll .placeholder 0 node.literal.placeholders
    .ok (wrap passed (.tagged tag' (node.literal.withPlaceholders ps)))
  | ⟨passed, _, some ⟨none, body, _⟩⟩ => Except.mapError (Fault.underTags passed.length) do
    let body' ← body.normalize.mapError (Fault.mk [])
    let ps ← collapseAll .placeholder 0 body.placeholders
    .ok (wrap passed (.template (body'.withPlaceholders ps)))
  | ⟨passed, _, some ⟨some t, body, _⟩⟩ => Except.mapError (Fault.underTags passed.length) do
    let body' ← body.normalize.mapError (Fault.mk [])
    let tag' ← t.collapse.mapError (Fault.under .tag)
    let ps ← collapseAll .placeholder 0 body.placeholders
    .ok (wrap passed (.tagged tag' (body'.withPlaceholders ps)))

theorem collapse_tagged (tag : Expr) (l : Literal Expr) :
    (Expr.tagged tag l).collapse = (Tagged.spine ⟨tag, l⟩).collapse := by
  rw [Expr.collapse]
  split <;> next h => rw [h]; rfl

theorem Tagged.Stop.collapse_push (l : Literal Expr) (s : Tagged.Stop) :
    (s.push l).collapse =
      (do let e ← s.collapse.mapError (Fault.under .tag)
          .ok (.tagged e l)) := by
  obtain ⟨passed, node, _ | ⟨_ | t, body, d⟩⟩ := s <;>
    simp only [push, collapse, List.length_cons, mapError_bind, mapError_mapError, underTags_succ,
      bind_assoc] <;> rfl

theorem collapse_template (l : Literal Expr) :
    (Expr.template l).collapse = collapseLiteral none l := by
  rw [Expr.collapse]
  rfl

theorem collapse_of_resolve_none {tag : Expr} {l : Literal Expr}
    (h : Tagged.resolve ⟨tag, l⟩ = none) :
    (Expr.tagged tag l).collapse = collapseLiteral (some tag) l := by
  rcases Tagged.isBody_or_layer tag l with hbody | ⟨u, m, rfl, hl⟩
  · rw [collapse_tagged, Tagged.spine_of_isBody hbody]
    exact mapError_underTags_zero _
  · -- a closing layer: its literal has no placeholders, and its tag is the next node of the spine
    rw [collapse_tagged, Tagged.spine_of_layer hl h, Tagged.Stop.collapse_push,
      ← collapse_tagged]
    obtain ⟨s, rfl⟩ := exists_text_of_isTrivial hl
    simp only [collapseLiteral, Literal.placeholders, collapseAll]
    rfl

theorem collapse_of_resolve_some {tag : Expr} {l body : Literal Expr} {r : Option Expr} {d : Nat}
    (h : Tagged.resolve ⟨tag, l⟩ = some ⟨r, body, d⟩) :
    (Expr.tagged tag l).collapse =
      body.normalize.mapError (Fault.mk []) >>= collapseLiteral r := by
  rw [collapse_tagged, Tagged.spine_of_resolve h]
  cases hn : body.normalize with
  | error cause => cases r <;> simp only [Tagged.Stop.collapse, hn] <;> rfl
  | ok body' =>
    have hps := placeholders_normalize hn
    cases r <;> simp only [Tagged.Stop.collapse, hn, ← hps] <;> exact mapError_underTags_zero _

/-! ### Diagnosing a node -/

def Tagged.Stop.diagnose : Tagged.Stop → List Fault
  | ⟨passed, node, none⟩ =>
    List.map (Fault.underTags passed.length)
      (node.tag.diagnose.map (Fault.under .tag) ++
        diagnoseAll .placeholder 0 node.literal.placeholders)
  | ⟨passed, _, some ⟨none, body, _⟩⟩ =>
    List.map (Fault.underTags passed.length)
      (bodyFaults body ++ diagnoseAll .placeholder 0 body.placeholders)
  | ⟨passed, _, some ⟨some t, body, _⟩⟩ =>
    List.map (Fault.underTags passed.length)
      (bodyFaults body ++ t.diagnose.map (Fault.under .tag) ++
        diagnoseAll .placeholder 0 body.placeholders)

theorem diagnose_tagged (tag : Expr) (l : Literal Expr) :
    (Expr.tagged tag l).diagnose = (Tagged.spine ⟨tag, l⟩).diagnose := by
  rw [Expr.diagnose]
  split <;> next h => rw [h]; rfl

theorem Tagged.Stop.diagnose_push (l : Literal Expr) (s : Tagged.Stop) :
    (s.push l).diagnose = s.diagnose.map (Fault.under .tag) := by
  obtain ⟨passed, node, _ | ⟨_ | t, body, d⟩⟩ := s <;>
    simp only [push, diagnose, List.length_cons, List.map_map] <;> rfl

theorem map_underTags_zero (fs : List Fault) : fs.map (Fault.underTags 0) = fs :=
  List.map_id fs

theorem diagnose_template (l : Literal Expr) :
    (Expr.template l).diagnose = diagnoseLiteral none l := by
  rw [Expr.diagnose]
  rfl

theorem diagnose_of_resolve_none {tag : Expr} {l : Literal Expr}
    (h : Tagged.resolve ⟨tag, l⟩ = none) :
    (Expr.tagged tag l).diagnose = diagnoseLiteral (some tag) l := by
  rcases Tagged.isBody_or_layer tag l with hbody | ⟨u, m, rfl, hl⟩
  · rw [diagnose_tagged, Tagged.spine_of_isBody hbody]
    exact map_underTags_zero _
  · rw [diagnose_tagged, Tagged.spine_of_layer hl h, Tagged.Stop.diagnose_push,
      ← diagnose_tagged]
    obtain ⟨s, rfl⟩ := exists_text_of_isTrivial hl
    simp only [diagnoseLiteral, Literal.placeholders, diagnoseAll, List.append_nil]

theorem diagnose_of_resolve_some {tag : Expr} {l body : Literal Expr} {r : Option Expr} {d : Nat}
    (h : Tagged.resolve ⟨tag, l⟩ = some ⟨r, body, d⟩) :
    (Expr.tagged tag l).diagnose = bodyFaults body ++ diagnoseLiteral r body := by
  rw [diagnose_tagged, Tagged.spine_of_resolve h]
  cases r with
  | none => exact map_underTags_zero _
  | some t =>
    rw [diagnoseLiteral, ← List.append_assoc]
    exact map_underTags_zero _

/-! ### Induction along the walk -/

theorem sizeOf_resolve {tag : Expr} {l body : Literal Expr} {r : Option Expr} {d : Nat}
    (h : Tagged.resolve ⟨tag, l⟩ = some ⟨r, body, d⟩) :
    sizeOf r + sizeOf body ≤ sizeOf tag + sizeOf l + 1 := by
  have hu := sizeOf_unwind tag l
  simp only [Tagged.resolve] at h
  split at h
  · cases h
  · next layer layers payload hunw =>
    simp only [hunw] at hu
    simp only [Option.map_eq_some_iff, Match.mk.injEq] at h
    obtain ⟨r', hb, rfl, rfl, -⟩ := h
    cases r' with
    | none =>
      simp only [Option.none.sizeOf_spec]
      omega
    | some t =>
      have ht := sizeOf_balance hb
      simp only [Option.some.sizeOf_spec]
      omega

theorem sizeOf_placeholder {l : Literal Expr} {p : Expr} (h : p ∈ l.placeholders) :
    sizeOf p < sizeOf l := by
  have h1 := List.sizeOf_lt_of_mem h
  have h2 := l.sizeOf_placeholders
  omega

/-- Induction over the nodes that the walk visits: below a chain that resolves these are the
recovered tag and the placeholders of the body, anywhere else the children of the node. -/
theorem Expr.walk_induction {motive : Expr → Prop}
    (identifier : ∀ name, motive (.identifier name))
    (string : ∀ value, motive (.string value))
    (template : ∀ l, (∀ p ∈ l.placeholders, motive p) → motive (.template l))
    (kept : ∀ tag l, Tagged.resolve ⟨tag, l⟩ = none → motive tag →
      (∀ p ∈ l.placeholders, motive p) → motive (.tagged tag l))
    (replaced : ∀ tag l r body d, Tagged.resolve ⟨tag, l⟩ = some ⟨r, body, d⟩ →
      (∀ t ∈ r, motive t) → (∀ p ∈ body.placeholders, motive p) → motive (.tagged tag l))
    (call : ∀ callee arguments, motive callee → (∀ a ∈ arguments, motive a) →
      motive (.call callee arguments))
    (member : ∀ object property, motive object → motive (.member object property))
    (array : ∀ elements, (∀ a ∈ elements, motive a) → motive (.array elements))
    (e : Expr) : motive e := by
  induction hn : sizeOf e using Nat.strongRecOn generalizing e with
  | ind n ih =>
    subst hn
    have smaller : ∀ c, sizeOf c < sizeOf e → motive c := fun c hc => ih _ hc c rfl
    cases e with
    | identifier name => exact identifier name
    | string value => exact string value
    | template l =>
      refine template l fun p hp => smaller p ?_
      have := sizeOf_placeholder hp
      simp only [Expr.template.sizeOf_spec]
      omega
    | tagged tag l =>
      cases hr : Tagged.resolve ⟨tag, l⟩ with
      | none =>
        refine kept tag l hr (smaller tag ?_) fun p hp => smaller p ?_
        · simp only [Expr.tagged.sizeOf_spec]
          omega
        · have := sizeOf_placeholder hp
          simp only [Expr.tagged.sizeOf_spec]
          omega
      | some m =>
        obtain ⟨r, body, d⟩ := m
        have hs := sizeOf_resolve hr
        refine replaced tag l r body d hr (fun t ht => smaller t ?_) fun p hp => smaller p ?_
        · rw [Option.mem_def.mp ht, Option.some.sizeOf_spec] at hs
          simp only [Expr.tagged.sizeOf_spec]
          omega
        · have := sizeOf_placeholder hp
          simp only [Expr.tagged.sizeOf_spec]
          omega
    | call callee arguments =>
      refine call callee arguments (smaller callee ?_) fun a ha => smaller a ?_
      · simp only [Expr.call.sizeOf_spec]
        omega
      · have := List.sizeOf_lt_of_mem ha
        simp only [Expr.call.sizeOf_spec]
        omega
    | member object property =>
      refine member object property (smaller object ?_)
      simp only [Expr.member.sizeOf_spec]
      omega
    | array elements =>
      refine array elements fun a ha => smaller a ?_
      have := List.sizeOf_lt_of_mem ha
      simp only [Expr.array.sizeOf_spec]
      omega

end OverDelimited
