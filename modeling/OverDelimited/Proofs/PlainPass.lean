import OverDelimited.Proofs.Walk

/-!
# The plain pass

The single top-down pass of the specification, section 10.5, without spines: it resolves every
tagged literal it comes to, puts the normalized body in the place of a chain, and goes on to the
children of what then stands there, carrying the path of the node it is at.  What happens at a
malformed body is left to `report`.  If reporting ends the pass, the pass is `collapse`; if it keeps
a log and goes on, the log is `diagnose`.
-/

namespace OverDelimited

/-! ### The pass -/

section Pass

variable {m : Type → Type} [Monad m]

mutual
/-- Visits an expression at the given path. -/
def Expr.visit (report : Fault → m Unit) (path : Path) : Expr → m Expr
  | .identifier name => pure (.identifier name)
  | .string value => pure (.string value)
  | .template l => visitLiteral report path none l
  | .tagged tag l =>
    match _h : Tagged.resolve ⟨tag, l⟩ with
    | none => visitLiteral report path (some tag) l
    | some ⟨t, body, _⟩ =>
      match _hn : body.normalize with
      | .ok body' => visitLiteral report path t body'
      | .error cause => do
        report ⟨path, cause⟩
        visitLiteral report path t body
  | .call callee arguments => do
    let callee' ← callee.visit report (path ++ [.callee])
    let arguments' ← visitAll report path .argument 0 arguments
    pure (.call callee' arguments')
  | .member object property => do
    let object' ← object.visit report (path ++ [.object])
    pure (.member object' property)
  | .array elements => do
    let elements' ← visitAll report path .element 0 elements
    pure (.array elements')
termination_by e => (sizeOf e, 1)
decreasing_by
  · have := l.sizeOf_placeholders
    simp_wf
    omega
  · have := l.sizeOf_placeholders
    simp_wf
    omega
  · have := sizeOf_resolve _h
    have := body.sizeOf_placeholders
    rw [placeholders_normalize _hn]
    simp_wf
    omega
  · have := sizeOf_resolve _h
    have := body.sizeOf_placeholders
    simp_wf
    omega
  all_goals
    simp_wf
    try omega

/-- Visits the children of a literal with a tag or without, and not the literal itself. -/
def visitLiteral (report : Fault → m Unit) (path : Path) : Option Expr → Literal Expr → m Expr
  | none, l => do
    let ps ← visitAll report path .placeholder 0 l.placeholders
    pure (.template (l.withPlaceholders ps))
  | some tag, l => do
    let tag' ← tag.visit report (path ++ [.tag])
    let ps ← visitAll report path .placeholder 0 l.placeholders
    pure (.tagged tag' (l.withPlaceholders ps))
termination_by tag l => (sizeOf tag + sizeOf l.placeholders, 0)

def visitAll (report : Fault → m Unit) (path : Path) (step : Nat → Step) :
    Nat → List Expr → m (List Expr)
  | _, [] => pure []
  | i, e :: es => do
    let e' ← e.visit report (path ++ [step i])
    let es' ← visitAll report path step (i + 1) es
    pure (e' :: es')
termination_by _ es => (sizeOf es, 0)
end

section Node

variable (report : Fault → m Unit) (path : Path) {tag : Expr} {l body : Literal Expr}
  {t : Option Expr} {d : Nat}

theorem visit_of_resolve_none (h : Tagged.resolve ⟨tag, l⟩ = none) :
    (Expr.tagged tag l).visit report path = visitLiteral report path (some tag) l := by
  rw [Expr.visit]
  split
  · rfl
  · next hr =>
    rw [h] at hr
    cases hr

theorem visit_of_normalize {body' : Literal Expr} (h : Tagged.resolve ⟨tag, l⟩ = some ⟨t, body, d⟩)
    (hn : body.normalize = .ok body') :
    (Expr.tagged tag l).visit report path = visitLiteral report path t body' := by
  rw [Expr.visit]
  split
  · next hr =>
    rw [h] at hr
    cases hr
  · next hr =>
    rw [h] at hr
    cases hr
    split
    · next hn' =>
      rw [hn] at hn'
      cases hn'
      rfl
    · next hn' =>
      rw [hn] at hn'
      cases hn'

theorem visit_of_malformed {cause : Malformed} (h : Tagged.resolve ⟨tag, l⟩ = some ⟨t, body, d⟩)
    (hn : body.normalize = .error cause) :
    (Expr.tagged tag l).visit report path =
      report ⟨path, cause⟩ >>= fun _ => visitLiteral report path t body := by
  rw [Expr.visit]
  split
  · next hr =>
    rw [h] at hr
    cases hr
  · next hr =>
    rw [h] at hr
    cases hr
    split
    · next hn' =>
      rw [hn] at hn'
      cases hn'
    · next hn' =>
      rw [hn] at hn'
      cases hn'
      rfl

end Node

end Pass

/-! ### Ending at the first fault -/

/-- The fault as seen from where the given path starts. -/
def Fault.below (path : Path) (f : Fault) : Fault :=
  ⟨path ++ f.path, f.cause⟩

theorem below_under (path : Path) (step : Step) (f : Fault) :
    (f.under step).below path = f.below (path ++ [step]) := by
  simp only [Fault.below, Fault.under, List.append_assoc, List.singleton_append]

theorem mapError_below_under {α : Type} (path : Path) (step : Step) (x : Except Fault α) :
    (x.mapError (Fault.under step)).mapError (Fault.below path) =
      x.mapError (Fault.below (path ++ [step])) := by
  rw [mapError_mapError]
  exact congrArg (Except.mapError · x) (funext (below_under path step))

theorem mapError_below_nil {α : Type} (x : Except Fault α) :
    x.mapError (Fault.below []) = x := by
  cases x <;> rfl

theorem visitAll_error (step : Nat → Step) {es : List Expr} (path : Path) (i : Nat)
    (ih : ∀ e ∈ es, ∀ path, e.visit Except.error path = e.collapse.mapError (Fault.below path)) :
    visitAll Except.error path step i es = (collapseAll step i es).mapError (Fault.below path) := by
  induction es generalizing i with
  | nil =>
    rw [visitAll, collapseAll]
    rfl
  | cons e es ihes =>
    have he := ih e (List.mem_cons_self ..) (path ++ [step i])
    have hes := ihes (i + 1) fun c hc => ih c (List.mem_cons_of_mem _ hc)
    rw [visitAll, collapseAll, mapError_bind, mapError_below_under, he]
    simp only [mapError_bind, hes]
    rfl

theorem visitLiteral_error {tag : Option Expr} {l : Literal Expr} (path : Path)
    (ihtag : ∀ t ∈ tag, ∀ path,
      t.visit Except.error path = t.collapse.mapError (Fault.below path))
    (ih : ∀ p ∈ l.placeholders, ∀ path,
      p.visit Except.error path = p.collapse.mapError (Fault.below path)) :
    visitLiteral Except.error path tag l =
      (collapseLiteral tag l).mapError (Fault.below path) := by
  have hps := visitAll_error .placeholder path 0 ih
  cases tag with
  | none =>
    rw [visitLiteral, collapseLiteral, hps]
    simp only [mapError_bind]
    rfl
  | some t =>
    rw [visitLiteral, collapseLiteral, hps, ihtag t rfl]
    simp only [mapError_bind, mapError_below_under]
    rfl

theorem visit_error (e : Expr) (path : Path) :
    e.visit Except.error path = e.collapse.mapError (Fault.below path) := by
  induction e using Expr.walk_induction generalizing path with
  | identifier name =>
    rw [Expr.visit, Expr.collapse]
    rfl
  | string value =>
    rw [Expr.visit, Expr.collapse]
    rfl
  | template l ih =>
    rw [Expr.visit, collapse_template]
    exact visitLiteral_error path (fun t ht => absurd ht (Option.not_mem_none t)) ih
  | kept tag l hr ihtag ih =>
    rw [visit_of_resolve_none _ _ hr, collapse_of_resolve_none hr]
    exact visitLiteral_error path (fun t ht => Option.some.inj ht ▸ ihtag) ih
  | replaced tag l r body d hr ihr ih =>
    rw [collapse_of_resolve_some hr]
    cases hn : body.normalize with
    | error cause =>
      rw [visit_of_malformed _ _ hr hn]
      show Except.error ⟨path, cause⟩ = Except.error (Fault.below path ⟨[], cause⟩)
      rw [Fault.below, List.append_nil]
    | ok body' =>
      rw [visit_of_normalize _ _ hr hn]
      exact visitLiteral_error path ihr (placeholders_normalize hn ▸ ih)
  | call callee arguments ihcallee ih =>
    have hargs := visitAll_error .argument path 0 ih
    rw [Expr.visit, Expr.collapse, hargs, ihcallee]
    simp only [mapError_bind, mapError_below_under]
    rfl
  | member object property ih =>
    rw [Expr.visit, Expr.collapse, ih]
    simp only [mapError_bind, mapError_below_under]
    rfl
  | array elements ih =>
    have helems := visitAll_error .element path 0 ih
    rw [Expr.visit, Expr.collapse, helems]
    simp only [mapError_bind]
    rfl

/-! ### Keeping a log -/

/-- The computation adds the given faults to the log, whatever the log holds. -/
def Logs {α : Type} (x : StateM (List Fault) α) (fs : List Fault) : Prop :=
  ∀ log, (x.run log).2 = log ++ fs

def note (f : Fault) : StateM (List Fault) Unit :=
  modify (· ++ [f])

section Logs

variable {α β : Type}

theorem logs_pure (a : α) : Logs (pure a) [] := by
  intro log
  exact (List.append_nil log).symm

theorem logs_note (f : Fault) : Logs (note f) [f] := by
  intro log
  rfl

theorem Logs.bind {x : StateM (List Fault) α} {g : α → StateM (List Fault) β} {fs gs : List Fault}
    (hx : Logs x fs) (hg : ∀ a, Logs (g a) gs) : Logs (x >>= g) (fs ++ gs) := by
  intro log
  show ((g (x.run log).1).run (x.run log).2).2 = log ++ (fs ++ gs)
  rw [hg, hx, List.append_assoc]

theorem Logs.bind_pure {x : StateM (List Fault) α} {fs : List Fault} (hx : Logs x fs)
    (f : α → β) : Logs (x >>= fun a => pure (f a)) fs := by
  have h := hx.bind fun a => logs_pure (f a)
  rwa [List.append_nil] at h

end Logs

theorem map_below_under (path : Path) (step : Step) (fs : List Fault) :
    (fs.map (Fault.under step)).map (Fault.below path) = fs.map (Fault.below (path ++ [step])) := by
  rw [List.map_map]
  exact congrArg (List.map · fs) (funext (below_under path step))

theorem logs_visitAll (step : Nat → Step) {es : List Expr} (path : Path) (i : Nat)
    (ih : ∀ e ∈ es, ∀ path, Logs (e.visit note path) (e.diagnose.map (Fault.below path))) :
    Logs (visitAll note path step i es) ((diagnoseAll step i es).map (Fault.below path)) := by
  induction es generalizing i with
  | nil =>
    rw [visitAll, diagnoseAll]
    exact logs_pure []
  | cons e es ihes =>
    have he := ih e (List.mem_cons_self ..) (path ++ [step i])
    have hes := ihes (i + 1) fun c hc => ih c (List.mem_cons_of_mem _ hc)
    rw [visitAll, diagnoseAll, List.map_append, map_below_under]
    exact he.bind fun e' => hes.bind_pure _

theorem logs_visitLiteral {tag : Option Expr} {l : Literal Expr} (path : Path)
    (ihtag : ∀ t ∈ tag, ∀ path, Logs (t.visit note path) (t.diagnose.map (Fault.below path)))
    (ih : ∀ p ∈ l.placeholders, ∀ path,
      Logs (p.visit note path) (p.diagnose.map (Fault.below path))) :
    Logs (visitLiteral note path tag l) ((diagnoseLiteral tag l).map (Fault.below path)) := by
  have hps := logs_visitAll .placeholder path 0 ih
  cases tag with
  | none =>
    rw [visitLiteral, diagnoseLiteral, List.nil_append]
    exact hps.bind_pure _
  | some t =>
    rw [visitLiteral, diagnoseLiteral, List.map_append, map_below_under]
    exact (ihtag t rfl _).bind fun t' => hps.bind_pure _

theorem logs_visit (e : Expr) (path : Path) :
    Logs (e.visit note path) (e.diagnose.map (Fault.below path)) := by
  induction e using Expr.walk_induction generalizing path with
  | identifier name =>
    rw [Expr.visit, Expr.diagnose]
    exact logs_pure _
  | string value =>
    rw [Expr.visit, Expr.diagnose]
    exact logs_pure _
  | template l ih =>
    rw [Expr.visit, diagnose_template]
    exact logs_visitLiteral path (fun t ht => absurd ht (Option.not_mem_none t)) ih
  | kept tag l hr ihtag ih =>
    rw [visit_of_resolve_none _ _ hr, diagnose_of_resolve_none hr]
    exact logs_visitLiteral path (fun t ht => Option.some.inj ht ▸ ihtag) ih
  | replaced tag l r body d hr ihr ih =>
    rw [diagnose_of_resolve_some hr, List.map_append]
    unfold bodyFaults
    cases hn : body.normalize with
    | error cause =>
      have hhere : Fault.below path ⟨[], cause⟩ = ⟨path, cause⟩ := by
        rw [Fault.below, List.append_nil]
      rw [visit_of_malformed _ _ hr hn, List.map_singleton, hhere]
      exact (logs_note _).bind fun _ => logs_visitLiteral path ihr ih
    | ok body' =>
      have hps := placeholders_normalize hn
      rw [visit_of_normalize _ _ hr hn, ← diagnoseLiteral_congr r hps]
      exact logs_visitLiteral path ihr (hps ▸ ih)
  | call callee arguments ihcallee ih =>
    have hargs := logs_visitAll .argument path 0 ih
    rw [Expr.visit, Expr.diagnose, List.map_append, map_below_under]
    exact (ihcallee _).bind fun callee' => hargs.bind_pure _
  | member object property ih =>
    rw [Expr.visit, Expr.diagnose, map_below_under]
    exact (ih _).bind_pure _
  | array elements ih =>
    have helems := logs_visitAll .element path 0 ih
    rw [Expr.visit, Expr.diagnose]
    exact helems.bind_pure _

/-! ### Whole programs -/

/-- The plain pass that ends at the first malformed literal, on an expression at the given path. -/
def Expr.plainPass (path : Path) (e : Expr) : Except Fault Expr :=
  e.visit Except.error path

def Program.plainPass (p : Program) : Except Fault Program :=
  (visitAll Except.error [] .body 0 p.body).map Program.mk

/-- The faults that the plain pass meets if it goes on past malformed literals. -/
def Program.plainFaults (p : Program) : List Fault :=
  ((visitAll note [] .body 0 p.body).run []).2

/-- Collapsing gives the tree, or the path and the cause, that the plain pass gives, and diagnosing
lists what the plain pass meets when it goes on. -/
theorem collapse_and_diagnose_are_plain_passes :
    (∀ path e, Expr.plainPass path e = e.collapse.mapError (Fault.below path)) ∧
    (∀ e : Expr, e.collapse = Expr.plainPass [] e) ∧
    (∀ p : Program, p.collapse = p.plainPass) ∧
    (∀ p : Program, p.diagnose = p.plainFaults) := by
  refine ⟨fun path e => visit_error e path, ?_, ?_, ?_⟩
  · intro e
    rw [Expr.plainPass, visit_error, mapError_below_nil]
  · intro p
    have hbody := visitAll_error .body [] 0 fun e (_ : e ∈ p.body) => visit_error e
    rw [Program.plainPass, hbody, mapError_below_nil]
    rfl
  · intro p
    have hbody := logs_visitAll .body [] 0 fun e (_ : e ∈ p.body) => logs_visit e
    have hlog := hbody []
    rw [List.nil_append] at hlog
    exact (hlog.trans (List.map_id _)).symm

end OverDelimited
