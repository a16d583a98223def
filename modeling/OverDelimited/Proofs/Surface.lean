import Mathlib.Data.Option.Basic
import OverDelimited.Proofs.Agreement
import OverDelimited.Proofs.BuiltChain
import OverDelimited.Proofs.SecondPass

/-!
# Expressions as they are written

In a surface tree an over-delimited literal is one node, whatever the length of its delimiter runs.
`Surface.compile` puts the chain in its place that a host parser reads for it, `Surface.expected`
the literal it stands for.  Collapsing leads from the one to the other, or ends with the fault of
the first over-delimited literal that is malformed, whichever way the nodes are nested.
-/

namespace OverDelimited

/-! ### Literals with other placeholders -/

namespace Literal

variable {α β : Type}

def map (f : α → β) : Literal α → Literal β
  | text s => text s
  | hole s p rest => hole s (f p) (rest.map f)

theorem placeholders_map (f : α → β) (l : Literal α) :
    (l.map f).placeholders = l.placeholders.map f := by
  induction l with
  | text s => rfl
  | hole s p rest ih => simp only [map, placeholders, List.map_cons, ih]

theorem segments_map (f : α → β) (l : Literal α) : (l.map f).segments = l.segments := by
  induction l with
  | text s => rfl
  | hole s p rest ih => simp only [map, segments, ih]

theorem isTrivial_map (f : α → β) (l : Literal α) : (l.map f).isTrivial = l.isTrivial := by
  cases l <;> rfl

theorem withPlaceholders_map (f g : α → β) (l : Literal α) :
    (l.map f).withPlaceholders (l.placeholders.map g) = l.map g := by
  induction l with
  | text s => rfl
  | hole s p rest ih => simp only [map, placeholders, List.map_cons, withPlaceholders, ih]

theorem mapSegmentsFrom_map {ε : Type} (step : Nat → Segment → Except ε Segment) (f : α → β)
    (i : Nat) (l : Literal α) :
    (l.map f).mapSegmentsFrom step i = (l.mapSegmentsFrom step i).map (map f) := by
  induction l generalizing i with
  | text s =>
    simp only [map, mapSegmentsFrom]
    cases step i s <;> rfl
  | hole s p rest ih =>
    simp only [map, mapSegmentsFrom, ih]
    cases step i s with
    | error e => rfl
    | ok s' => cases rest.mapSegmentsFrom step (i + 1) <;> rfl

/-- Normalizing does not look at placeholders. -/
theorem normalize_map (f : α → β) (l : Literal α) :
    (l.map f).normalize = l.normalize.map (map f) := by
  have hfirst : (l.map f).first = l.first := by cases l <;> rfl
  simp only [normalize, hfirst, segments_map]
  cases marginOf l.first.raw.toList with
  | error e => rfl
  | ok margin => exact mapSegmentsFrom_map _ f 0 l

/-- The normalized literal; a malformed one stays as it is. -/
def normalized (l : Literal α) : Literal α :=
  match l.normalize with
  | .ok l' => l'
  | .error _ => l

end Literal

/-! ### Surface trees -/

/-- A literal with text or with a placeholder. -/
inductive Body (α : Type) where
  | text (segment : Segment) (written : segment.raw ≠ "")
  | hole (segment : Segment) (placeholder : α) (rest : Literal α)

def Body.literal {α : Type} : Body α → Literal α
  | text s _ => .text s
  | hole s p rest => .hole s p rest

theorem Body.isTrivial_literal {α : Type} (b : Body α) : b.literal.isTrivial = false := by
  cases b with
  | text s h => simp [literal, Literal.isTrivial, h]
  | hole s p rest => rfl

mutual
/-- An expression as it is written. -/
inductive Surface where
  | plain (p : Plain)
  /-- A literal between runs of `2 * (further + 1) + 1` delimiters, and behind it `extra` pairs
  that close right against themselves. -/
  | fat (tag : Option Plain) (further extra : Nat) (body : Body Surface)

/-- An expression that is not over-delimited itself, as the tag of an over-delimited literal has to
be. -/
inductive Plain where
  | identifier (name : String)
  | string (value : String)
  | template (body : Body Surface)
  | tagged (tag : Surface) (body : Body Surface)
  | call (callee : Surface) (arguments : List Surface)
  | member (object : Surface) (property : String)
  | array (elements : List Surface)
end

/-- What is made of an over-delimited literal: of its tag, the number of its pairs, that of the
pairs in excess, and its body. -/
abbrev FatReading := Option Expr → Nat → Nat → Literal Expr → Expr

mutual
/-- The expression for a surface tree, over-delimited literals being read in the given way. -/
def Surface.build (fat : FatReading) : Surface → Expr
  | .plain p => p.build fat
  | .fat none further extra body => fat none (further + 1) extra (buildBody fat body)
  | .fat (some t) further extra body =>
    fat (some (t.build fat)) (further + 1) extra (buildBody fat body)

def Plain.build (fat : FatReading) : Plain → Expr
  | .identifier name => .identifier name
  | .string value => .string value
  | .template body => .template (buildBody fat body)
  | .tagged tag body => .tagged (tag.build fat) (buildBody fat body)
  | .call callee arguments => .call (callee.build fat) (buildAll fat arguments)
  | .member object property => .member (object.build fat) property
  | .array elements => .array (buildAll fat elements)

def buildBody (fat : FatReading) : Body Surface → Literal Expr
  | .text s _ => .text s
  | .hole s p rest => .hole s (p.build fat) (buildLiteral fat rest)

def buildLiteral (fat : FatReading) : Literal Surface → Literal Expr
  | .text s => .text s
  | .hole s p rest => .hole s (p.build fat) (buildLiteral fat rest)

def buildAll (fat : FatReading) : List Surface → List Expr
  | [] => []
  | s :: ss => s.build fat :: buildAll fat ss
end

/-- What a host parser reads. -/
def Surface.compile : Surface → Expr :=
  Surface.build fun tag pairs extra l => .close extra (builtChain tag pairs l)

/-- What is meant. -/
def Surface.expected : Surface → Expr :=
  Surface.build fun tag _ extra l => .close extra (.ofLiteral tag l.normalized)

/-- The fault of an over-delimited literal with the given body. -/
def Body.faults (body : Body Surface) : List Fault :=
  match body.literal.normalize with
  | .ok _ => []
  | .error cause => [⟨[], cause⟩]

mutual
/-- The faults of all over-delimited literals that are malformed, from the top down: that of a node,
those in its tag, those in its placeholders. -/
def Surface.faults : Surface → List Fault
  | .plain p => p.faults
  | .fat none _ extra body => (body.faults ++ faultsBody body).map (Fault.underTags extra)
  | .fat (some t) _ extra body =>
    (body.faults ++ (t.faults.map (Fault.under .tag) ++ faultsBody body)).map
      (Fault.underTags extra)

def Plain.faults : Plain → List Fault
  | .identifier _ => []
  | .string _ => []
  | .template body => faultsBody body
  | .tagged tag body => tag.faults.map (Fault.under .tag) ++ faultsBody body
  | .call callee arguments =>
    callee.faults.map (Fault.under .callee) ++ faultsAll .argument 0 arguments
  | .member object _ => object.faults.map (Fault.under .object)
  | .array elements => faultsAll .element 0 elements

def faultsBody : Body Surface → List Fault
  | .text _ _ => []
  | .hole _ p rest => p.faults.map (Fault.under (.placeholder 0)) ++ faultsLiteral 1 rest

def faultsLiteral : Nat → Literal Surface → List Fault
  | _, .text _ => []
  | i, .hole _ p rest => p.faults.map (Fault.under (.placeholder i)) ++ faultsLiteral (i + 1) rest

def faultsAll (step : Nat → Step) : Nat → List Surface → List Fault
  | _, [] => []
  | i, s :: ss => s.faults.map (Fault.under (step i)) ++ faultsAll step (i + 1) ss
end

/-! ### Nodes by their children -/

theorem buildLiteral_eq (fat : FatReading) (l : Literal Surface) :
    buildLiteral fat l = l.map (Surface.build fat) := by
  induction l with
  | text s => rfl
  | hole s p rest ih => simp only [buildLiteral, Literal.map, ih]

theorem buildBody_eq (fat : FatReading) (b : Body Surface) :
    buildBody fat b = b.literal.map (Surface.build fat) := by
  cases b with
  | text s h => rfl
  | hole s p rest => simp only [buildBody, buildLiteral_eq, Body.literal, Literal.map]

theorem buildAll_eq (fat : FatReading) (ss : List Surface) :
    buildAll fat ss = ss.map (Surface.build fat) := by
  induction ss with
  | nil => rfl
  | cons s ss ih => simp only [buildAll, List.map_cons, ih]

theorem build_fat (fat : FatReading) (tag : Option Plain) (further extra : Nat)
    (body : Body Surface) :
    (Surface.fat tag further extra body).build fat =
      fat ((tag.map Surface.plain).map (Surface.build fat)) (further + 1) extra
        (body.literal.map (Surface.build fat)) := by
  cases tag <;> simp only [Surface.build, buildBody_eq, Option.map_none, Option.map_some]

theorem build_template (fat : FatReading) (body : Body Surface) :
    (Surface.plain (.template body)).build fat =
      .template (body.literal.map (Surface.build fat)) :=
  congrArg Expr.template (buildBody_eq fat body)

theorem build_tagged (fat : FatReading) (tag : Surface) (body : Body Surface) :
    (Surface.plain (.tagged tag body)).build fat =
      .tagged (tag.build fat) (body.literal.map (Surface.build fat)) :=
  congrArg (Expr.tagged (tag.build fat)) (buildBody_eq fat body)

theorem faultsLiteral_eq (i : Nat) (l : Literal Surface) :
    faultsLiteral i l = faultsAll .placeholder i l.placeholders := by
  induction l generalizing i with
  | text s => rfl
  | hole s p rest ih => simp only [faultsLiteral, Literal.placeholders, faultsAll, ih]

theorem faultsBody_eq (b : Body Surface) :
    faultsBody b = faultsAll .placeholder 0 b.literal.placeholders := by
  cases b with
  | text s h => rfl
  | hole s p rest =>
    simp only [faultsBody, faultsLiteral_eq, Body.literal, Literal.placeholders, faultsAll]

/-- Induction over surface trees, with the members of lists and the placeholders of bodies as
children. -/
theorem Surface.tree_induction {motive : Surface → Prop}
    (identifier : ∀ name, motive (.plain (.identifier name)))
    (string : ∀ value, motive (.plain (.string value)))
    (template : ∀ body, (∀ p ∈ body.literal.placeholders, motive p) →
      motive (.plain (.template body)))
    (tagged : ∀ tag body, motive tag → (∀ p ∈ body.literal.placeholders, motive p) →
      motive (.plain (.tagged tag body)))
    (call : ∀ callee arguments, motive callee → (∀ a ∈ arguments, motive a) →
      motive (.plain (.call callee arguments)))
    (member : ∀ object property, motive object → motive (.plain (.member object property)))
    (array : ∀ elements, (∀ a ∈ elements, motive a) → motive (.plain (.array elements)))
    (fat : ∀ tag further extra body, (∀ t ∈ tag, motive (.plain t)) →
      (∀ p ∈ body.literal.placeholders, motive p) → motive (.fat tag further extra body))
    (s : Surface) : motive s := by
  refine @Surface.rec motive (fun p => motive (.plain p)) (fun tag => ∀ t ∈ tag, motive (.plain t))
    (fun b => ∀ p ∈ b.literal.placeholders, motive p) (fun ss => ∀ p ∈ ss, motive p)
    (fun l => ∀ p ∈ l.placeholders, motive p) (fun _ h => h) fat identifier string template tagged
    call member array ?noTag ?tag ?textBody ?holeBody ?noMember ?members ?text ?hole s
  case noTag => exact nofun
  case tag =>
    intro t ih t' ht
    cases ht
    exact ih
  case textBody => exact fun _ _ => nofun
  case holeBody => exact fun _ _ _ hp hrest => List.forall_mem_cons.mpr ⟨hp, hrest⟩
  case noMember => exact nofun
  case members => exact fun _ _ hs hss => List.forall_mem_cons.mpr ⟨hs, hss⟩
  case text => exact fun _ => nofun
  case hole => exact fun _ _ _ hp hrest => List.forall_mem_cons.mpr ⟨hp, hrest⟩

/-! ### Compiled tags -/

theorem firstPair_of_text (tag : Expr) {l : Literal Expr} (h : l.isTrivial = false) :
    firstPair (.tagged tag l) = none := by
  cases tag <;> simp [firstPair, h]

theorem isTrivial_compiled (b : Body Surface) (f : Surface → Expr) :
    (b.literal.map f).isTrivial = false := by
  rw [Literal.isTrivial_map, b.isTrivial_literal]

theorem admissible_of_untagged {e : Expr} (h : ∀ u m, e ≠ .tagged u m)
    (hbare : e.isTrivialLiteral = false) : Admissible e := by
  refine ⟨hbare, ?_, resolve_untagged h _⟩
  cases e with
  | tagged u m => exact absurd rfl (h u m)
  | _ => rfl

theorem compile_fat (tag : Option Plain) (further extra : Nat) (body : Body Surface) :
    (Surface.fat tag further extra body).compile =
      .close extra (builtChain ((tag.map Surface.plain).map Surface.compile) (further + 1)
        (body.literal.map Surface.compile)) :=
  build_fat ..

theorem compile_template (body : Body Surface) :
    (Surface.plain (.template body)).compile = .template (body.literal.map Surface.compile) :=
  build_template ..

theorem compile_tagged (tag : Surface) (body : Body Surface) :
    (Surface.plain (.tagged tag body)).compile =
      .tagged tag.compile (body.literal.map Surface.compile) :=
  build_tagged ..

/-- No tree compiles to something that ends in the first pair of a run; and what is not
over-delimited can be the tag of a run. -/
theorem compile_opens_no_run (s : Surface) :
    firstPair s.compile = none ∧ ∀ p, s = .plain p → Admissible s.compile := by
  induction s using Surface.tree_induction with
  | identifier name =>
    exact ⟨rfl, fun _ _ => admissible_of_untagged (e := .identifier name) (by simp) rfl⟩
  | string value =>
    exact ⟨rfl, fun _ _ => admissible_of_untagged (e := .string value) (by simp) rfl⟩
  | template body ih =>
    have hl := isTrivial_compiled body Surface.compile
    rw [compile_template]
    exact ⟨by simp [firstPair, hl], fun _ _ => admissible_of_untagged (by simp) hl⟩
  | tagged tag body ihtag ih =>
    have hl := isTrivial_compiled body Surface.compile
    rw [compile_tagged]
    refine ⟨firstPair_of_text _ hl, fun _ _ => ⟨rfl, hl, ?_⟩⟩
    -- the tag opens no run, so that one more literal behind the text closes nothing
    exact (resolve_text_behind _ hl).mpr ihtag.1
  | call callee arguments ihcallee ih =>
    exact ⟨rfl, fun _ _ => admissible_of_untagged (e := .call _ _) (by simp) rfl⟩
  | member object property ih =>
    exact ⟨rfl, fun _ _ => admissible_of_untagged (e := .member _ _) (by simp) rfl⟩
  | array elements ih =>
    exact ⟨rfl, fun _ _ => admissible_of_untagged (e := .array _) (by simp) rfl⟩
  | fat tag further extra body ihtag ih =>
    have hl := isTrivial_compiled body Surface.compile
    have ht : ∀ t ∈ (tag.map Surface.plain).map Surface.compile, Admissible t :=
      Option.forall_mem_map.mpr (Option.forall_mem_map.mpr fun t h => (ihtag t h).2 t rfl)
    rw [compile_fat]
    refine ⟨firstPair_builtChain ht hl further extra, fun p hp => ?_⟩
    cases hp

theorem admissible_compile (tag : Option Plain) :
    ∀ t ∈ (tag.map Surface.plain).map Surface.compile, Admissible t :=
  Option.forall_mem_map.mpr (Option.forall_mem_map.mpr fun p _ =>
    (compile_opens_no_run (.plain p)).2 p rfl)

/-! ### Faults -/

theorem bodyFaults_compile (body : Body Surface) :
    bodyFaults (body.literal.map Surface.compile) = body.faults := by
  rw [bodyFaults, Body.faults, Literal.normalize_map]
  cases body.literal.normalize <;> rfl

theorem diagnoseAll_compile {step : Nat → Step} {ss : List Surface} (i : Nat)
    (ih : ∀ s ∈ ss, s.compile.diagnose = s.faults) :
    diagnoseAll step i (ss.map Surface.compile) = faultsAll step i ss := by
  induction ss generalizing i with
  | nil =>
    rw [List.map_nil, diagnoseAll]
    rfl
  | cons s ss ihss =>
    have hs := ih s (List.mem_cons_self ..)
    have hss := ihss (i + 1) fun c hc => ih c (List.mem_cons_of_mem _ hc)
    rw [List.map_cons, diagnoseAll, hs, hss, faultsAll]

theorem diagnose_placeholders_compile {body : Body Surface}
    (ih : ∀ p ∈ body.literal.placeholders, p.compile.diagnose = p.faults) :
    diagnoseAll .placeholder 0 (body.literal.map Surface.compile).placeholders =
      faultsBody body := by
  rw [Literal.placeholders_map, diagnoseAll_compile 0 ih, faultsBody_eq]

theorem diagnose_compile (s : Surface) : s.compile.diagnose = s.faults := by
  induction s using Surface.tree_induction with
  | identifier name =>
    show (Expr.identifier name).diagnose = []
    rw [Expr.diagnose]
  | string value =>
    show (Expr.string value).diagnose = []
    rw [Expr.diagnose]
  | template body ih =>
    rw [compile_template, diagnose_template, diagnoseLiteral, diagnose_placeholders_compile ih]
    rfl
  | tagged tag body ihtag ih =>
    have hl := isTrivial_compiled body Surface.compile
    have hr := Tagged.resolve_of_isBody (Tagged.isBody_of_text (u := tag.compile) hl)
    rw [compile_tagged, diagnose_of_resolve_none hr, diagnoseLiteral,
      diagnose_placeholders_compile ih, ihtag]
    rfl
  | call callee arguments ihcallee ih =>
    show (Expr.call callee.compile (buildAll _ arguments)).diagnose = _
    rw [buildAll_eq, Expr.diagnose, ihcallee]
    exact congrArg (_ ++ ·) (diagnoseAll_compile 0 ih)
  | member object property ih =>
    show (Expr.member object.compile property).diagnose = _
    rw [Expr.diagnose, ih]
    rfl
  | array elements ih =>
    show (Expr.array (buildAll _ elements)).diagnose = _
    rw [buildAll_eq, Expr.diagnose]
    exact diagnoseAll_compile 0 ih
  | fat tag further extra body ihtag ih =>
    have hl := isTrivial_compiled body Surface.compile
    have hps := diagnose_placeholders_compile ih
    rw [compile_fat, diagnose_excess (admissible_compile tag) hl, bodyFaults_compile]
    cases tag with
    | none =>
      simp only [Option.map_none, diagnoseLiteral, hps]
      rfl
    | some t =>
      simp only [Option.map_some, diagnoseLiteral, ihtag t rfl, hps]
      rfl

/-! ### Results -/

theorem expected_of_results {ss : List Surface} {es' : List Expr}
    (h : (ss.map Surface.compile).map Expr.collapse = es'.map .ok)
    (ih : ∀ s ∈ ss, ∀ e', s.compile.collapse = .ok e' → e' = s.expected) :
    es' = ss.map Surface.expected := by
  rw [List.map_map] at h
  rw [← map_eq_of_results (g := id) h ih, List.map_id]

theorem expected_of_collapseLiteral {r : Option Surface} {l : Literal Surface} {e' : Expr}
    (h : collapseLiteral (r.map Surface.compile) (l.map Surface.compile) = .ok e')
    (ihr : ∀ t ∈ r, ∀ t', t.compile.collapse = .ok t' → t' = t.expected)
    (ih : ∀ p ∈ l.placeholders, ∀ p', p.compile.collapse = .ok p' → p' = p.expected) :
    e' = .ofLiteral (r.map Surface.expected) (l.map Surface.expected) := by
  obtain ⟨tag', ps, htag, hps, rfl⟩ := collapseLiteral_eq_ok_iff.mp h
  rw [Literal.placeholders_map] at hps
  rw [Option.map_map] at htag
  rw [expected_of_results hps ih, Literal.withPlaceholders_map,
    ← tag_map_eq_of_results (g := id) htag ihr, Option.map_id]
  rfl

theorem expected_template (body : Body Surface) :
    (Surface.plain (.template body)).expected = .template (body.literal.map Surface.expected) :=
  build_template ..

theorem expected_tagged (tag : Surface) (body : Body Surface) :
    (Surface.plain (.tagged tag body)).expected =
      .tagged tag.expected (body.literal.map Surface.expected) :=
  build_tagged ..

theorem expected_fat (tag : Option Plain) (further extra : Nat) (body : Body Surface) :
    (Surface.fat tag further extra body).expected =
      .close extra (.ofLiteral ((tag.map Surface.plain).map Surface.expected)
        (body.literal.map Surface.expected).normalized) :=
  build_fat ..

theorem expected_of_collapse {s : Surface} {e' : Expr} (h : s.compile.collapse = .ok e') :
    e' = s.expected := by
  induction s using Surface.tree_induction generalizing e' with
  | identifier name =>
    replace h : (Expr.identifier name).collapse = .ok e' := h
    rw [Expr.collapse] at h
    cases h
    rfl
  | string value =>
    replace h : (Expr.string value).collapse = .ok e' := h
    rw [Expr.collapse] at h
    cases h
    rfl
  | template body ih =>
    rw [compile_template, collapse_template] at h
    rw [expected_template]
    exact expected_of_collapseLiteral (r := none) h
      (fun t ht => absurd ht (Option.not_mem_none t)) fun p hp p' => ih p hp
  | tagged tag body ihtag ih =>
    have hl := isTrivial_compiled body Surface.compile
    have hr := Tagged.resolve_of_isBody (Tagged.isBody_of_text (u := tag.compile) hl)
    rw [compile_tagged, collapse_of_resolve_none hr] at h
    rw [expected_tagged]
    refine expected_of_collapseLiteral (r := some tag) h (fun t ht t' ht' => ?_)
      fun p hp p' => ih p hp
    cases ht
    exact ihtag ht'
  | call callee arguments ihcallee ih =>
    replace h : (Expr.call callee.compile (buildAll _ arguments)).collapse = .ok e' := h
    rw [buildAll_eq] at h
    obtain ⟨callee', hcallee, arguments', hargs, rfl⟩ := collapse_call_eq_ok_iff.mp h
    rw [ihcallee hcallee, expected_of_results hargs fun a ha a' => ih a ha]
    exact congrArg (Expr.call callee.expected) (buildAll_eq _ arguments).symm
  | member object property ih =>
    obtain ⟨object', hobject, rfl⟩ := collapse_member_eq_ok_iff.mp h
    rw [ih hobject]
    rfl
  | array elements ih =>
    replace h : (Expr.array (buildAll _ elements)).collapse = .ok e' := h
    rw [buildAll_eq] at h
    obtain ⟨elements', helems, rfl⟩ := collapse_array_eq_ok_iff.mp h
    rw [expected_of_results helems fun a ha a' => ih a ha]
    exact congrArg Expr.array (buildAll_eq _ elements).symm
  | fat tag further extra body ihtag ih =>
    have hl := isTrivial_compiled body Surface.compile
    have ht := admissible_compile tag
    rw [compile_fat, collapse_excess_eq_ok_iff ht hl] at h
    obtain ⟨c', hc, rfl⟩ := h
    obtain ⟨body', hn, hlit⟩ :=
      (collapse_replaced_eq_ok_iff (resolve_builtChain ht hl further)).mp hc
    -- the body is normalized with its placeholders compiled; what is meant has them replaced
    rw [Literal.normalize_map] at hn
    obtain ⟨l', hl', rfl⟩ := map_eq_ok.mp hn
    have hmeant : (body.literal.map Surface.expected).normalized = l'.map Surface.expected := by
      rw [Literal.normalized, Literal.normalize_map, hl']
      rfl
    rw [expected_fat, hmeant]
    refine congrArg (Expr.close extra) (expected_of_collapseLiteral hlit ?_ fun p hp p' => ih p ?_)
    · exact Option.forall_mem_map.mpr fun t ht t' => ihtag t ht
    · exact placeholders_normalize hl' ▸ hp

/-! ### Compiling and collapsing -/

/-- The result, or the first of the faults if there are any. -/
def unlessFaulty {α : Type} (faults : List Fault) (result : α) : Except Fault α :=
  match faults with
  | [] => .ok result
  | f :: _ => .error f

theorem eq_unlessFaulty {α : Type} {x : Except Fault α} {faults : List Fault} {result : α}
    (hfaults : errorOf x = faults.head?) (hresult : ∀ a, x = .ok a → a = result) :
    x = unlessFaulty faults result := by
  cases faults with
  | nil =>
    obtain ⟨a, ha⟩ := errorOf_eq_none_iff.mp hfaults
    rw [ha, hresult a ha]
    rfl
  | cons f rest => exact errorOf_eq_some_iff.mp hfaults

/-- Each over-delimited literal of a surface tree is compiled to the chain that is built for its
delimiter runs.  Collapsing what the tree is compiled to gives what is meant, or ends with the fault
of the first over-delimited literal, from the top down, that is malformed; and so for a program
made of such trees. -/
theorem collapsing_undoes_compiling :
    (∀ tag further extra (body : Body Surface), ∃ c,
      chain ((tag.map Surface.plain).map Surface.compile) (2 * (further + 1) + 1)
        (body.literal.map Surface.compile) = .ok c ∧
      (Surface.fat tag further extra body).compile = .close extra c) ∧
    (∀ s : Surface, s.compile.collapse = unlessFaulty s.faults s.expected) ∧
    (∀ ss : List Surface, Program.collapse ⟨ss.map Surface.compile⟩ =
      unlessFaulty (faultsAll .body 0 ss) ⟨ss.map Surface.expected⟩) := by
  refine ⟨fun tag further extra body => ?_, fun s => ?_, fun ss => ?_⟩
  · exact ⟨_, chain_of_pairs _ further _, compile_fat tag further extra body⟩
  · apply eq_unlessFaulty
    · rw [errorOf_collapse, diagnose_compile]
    · exact fun e' => expected_of_collapse
  · apply eq_unlessFaulty
    · rw [errorOf_collapse_program]
      exact congrArg List.head? (diagnoseAll_compile 0 fun s _ => diagnose_compile s)
    · intro q hq
      have hbody := program_collapse_eq_ok_iff.mp hq
      rw [← expected_of_results hbody fun s _ e' => expected_of_collapse]

example :
    (Surface.fat (some (.identifier "sql")) 0 1 (.text (.ofText "\n  g\n") (by decide))).expected =
      .close 1 (.tagged (.identifier "sql") (.ofText "g")) := rfl

end OverDelimited
