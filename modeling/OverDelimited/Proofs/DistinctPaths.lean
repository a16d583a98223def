import Mathlib.Data.List.Nodup
import OverDelimited.Proofs.Location

/-!
# Faults are told apart by their paths

A spelled path can be taken apart into its steps again: no step is spelled with a dot, and each
kind of step starts with a letter of its own.  Along the walk the faults of one node are told apart
by the first step that leads on to them, and at most one of them is the node's own.  So no two
faults of a program are reported at the same spelled path.
-/

namespace OverDelimited

/-! ### Spelled paths -/

/-- The letter that a step is spelled with first. -/
def Step.initial : Step → Char
  | body _ => 'b'
  | tag => 't'
  | placeholder _ => 'p'
  | callee => 'c'
  | argument _ => 'a'
  | object => 'o'
  | element _ => 'e'

theorem head?_step (s : Step) : s.text.toList.head? = some s.initial := by
  cases s <;> simp [Step.text, Step.initial]

theorem repr_injective : Function.Injective Nat.repr := by
  intro m n h
  have hdigits : Nat.toDigits 10 m = Nat.toDigits 10 n := by
    simpa only [Nat.toList_repr] using congrArg String.toList h
  calc
    m = Nat.ofDigitChars 10 (Nat.toDigits 10 m) 0 := Nat.ofDigitChars_ten_toDigits.symm
    _ = Nat.ofDigitChars 10 (Nat.toDigits 10 n) 0 := by rw [hdigits]
    _ = n := Nat.ofDigitChars_ten_toDigits

theorem Step.text_injective : Function.Injective Step.text := by
  intro s t h
  have hinitial : s.initial = t.initial := by
    have hhead := congrArg (·.toList.head?) h
    simpa [head?_step] using hhead
  cases s <;> cases t <;> simp [Step.initial] at hinitial
  -- two steps of one kind are left
  case tag.tag | callee.callee | object.object => rfl
  case body.body | placeholder.placeholder | argument.argument | element.element =>
    simpa [Step.text, repr_injective.eq_iff] using h

theorem dot_not_mem_step (s : Step) : '.' ∉ s.text.toList := by
  have hindex : ∀ i : Nat, '.' ∉ (toString i).toList := by
    intro i h
    rw [Nat.toString_eq_repr, Nat.toList_repr] at h
    exact absurd (Nat.isDigit_of_mem_toDigits (by decide) (by decide) h) (by decide)
  cases s with
  | body i | placeholder i | argument i | element i => simpa [Step.text] using hindex i
  | tag | callee | object => decide

theorem splitOn_path {path : Path} (h : path ≠ []) :
    path.text.toList.splitOn '.' = path.map fun s => s.text.toList := by
  have hdots : ∀ chars ∈ path.map fun s => s.text.toList, '.' ∉ chars := by
    intro chars hchars
    obtain ⟨s, -, rfl⟩ := List.mem_map.mp hchars
    exact dot_not_mem_step s
  have htext : path.text.toList = ['.'].intercalate (path.map fun s => s.text.toList) := by
    cases path with
    | nil => exact absurd rfl h
    | cons s path =>
      show (".".intercalate _).toList = _
      rw [String.toList_intercalate, List.map_map]
      rfl
  rw [htext, List.splitOn_intercalate '.' hdots (by simpa using h)]

theorem Path.text_injective {path path' : Path} (hne : path ≠ []) (hne' : path' ≠ [])
    (h : path.text = path'.text) : path = path' := by
  have hsteps : path.map (fun s => s.text.toList) = path'.map fun s => s.text.toList := by
    rw [← splitOn_path hne, ← splitOn_path hne', h]
  refine List.map_injective_iff.mpr (fun s t hst => ?_) hsteps
  exact Step.text_injective (String.toList_inj.mp hst)

/-! ### Faults of one node -/

/-- No two faults of the list stand at the same path. -/
def PathsDiffer (fs : List Fault) : Prop :=
  (fs.map Fault.path).Nodup

theorem PathsDiffer.under {fs : List Fault} (h : PathsDiffer fs) (s : Step) :
    PathsDiffer (fs.map (Fault.under s)) := by
  have hpaths : (fs.map (Fault.under s)).map Fault.path = (fs.map Fault.path).map (s :: ·) := by
    rw [List.map_map, List.map_map]
    rfl
  rw [PathsDiffer, hpaths]
  exact h.map (List.cons_injective)

/-- Faults whose paths start differently are told apart. -/
theorem PathsDiffer.append {fs gs : List Fault} (hf : PathsDiffer fs) (hg : PathsDiffer gs)
    (h : ∀ f ∈ fs, ∀ g ∈ gs, f.path.head? ≠ g.path.head?) : PathsDiffer (fs ++ gs) := by
  rw [PathsDiffer, List.map_append, List.nodup_append]
  refine ⟨hf, hg, ?_⟩
  intro path hpath path' hpath' heq
  obtain ⟨f, hmem, rfl⟩ := List.mem_map.mp hpath
  obtain ⟨g, hmem', rfl⟩ := List.mem_map.mp hpath'
  exact h f hmem g hmem' (congrArg List.head? heq)

theorem head?_of_mem_under {fs : List Fault} {s : Step} {f : Fault}
    (h : f ∈ fs.map (Fault.under s)) : f.path.head? = some s := by
  obtain ⟨g, -, rfl⟩ := List.mem_map.mp h
  rfl

theorem head?_of_mem_diagnoseAll {step : Nat → Step} {i : Nat} {es : List Expr} {f : Fault}
    (h : f ∈ diagnoseAll step i es) : ∃ k, f.path.head? = some (step (i + k)) := by
  obtain ⟨k, c, g, -, -, rfl⟩ := mem_diagnoseAll h
  exact ⟨k, rfl⟩

theorem pathsDiffer_diagnoseAll {step : Nat → Step} (hstep : Function.Injective step)
    {es : List Expr} (h : ∀ e ∈ es, PathsDiffer e.diagnose) (i : Nat) :
    PathsDiffer (diagnoseAll step i es) := by
  induction es generalizing i with
  | nil =>
    rw [diagnoseAll]
    exact List.nodup_nil
  | cons e es ih =>
    rw [diagnoseAll]
    have he := (h e (List.mem_cons_self ..)).under (step i)
    refine he.append (ih (fun c hc => h c (List.mem_cons_of_mem _ hc)) (i + 1)) ?_
    intro f hf g hg heq
    obtain ⟨k, hk⟩ := head?_of_mem_diagnoseAll hg
    rw [head?_of_mem_under hf, hk] at heq
    have := hstep (Option.some.inj heq)
    omega

theorem pathsDiffer_diagnoseLiteral {tag : Option Expr} {l : Literal Expr}
    (htag : ∀ t ∈ tag, PathsDiffer t.diagnose)
    (hps : ∀ p ∈ l.placeholders, PathsDiffer p.diagnose) : PathsDiffer (diagnoseLiteral tag l) := by
  have hall : PathsDiffer (diagnoseAll .placeholder 0 l.placeholders) :=
    pathsDiffer_diagnoseAll (fun _ _ h => Step.placeholder.inj h) hps 0
  cases tag with
  | none => exact hall
  | some t =>
    refine ((htag t rfl).under .tag).append hall ?_
    intro f hf g hg heq
    obtain ⟨k, hk⟩ := head?_of_mem_diagnoseAll hg
    rw [head?_of_mem_under hf, hk] at heq
    cases heq

theorem path_ne_nil_of_mem_diagnoseLiteral {tag : Option Expr} {l : Literal Expr} {f : Fault}
    (h : f ∈ diagnoseLiteral tag l) : f.path ≠ [] := by
  rcases List.mem_append.mp h with h | h
  · cases tag with
    | none => cases h
    | some t =>
      obtain ⟨g, -, rfl⟩ := List.mem_map.mp h
      exact List.cons_ne_nil _ _
  · obtain ⟨k, c, g, -, -, rfl⟩ := mem_diagnoseAll h
    exact List.cons_ne_nil _ _

theorem pathsDiffer_diagnose (e : Expr) : PathsDiffer e.diagnose := by
  induction e using Expr.walk_induction with
  | identifier name =>
    rw [Expr.diagnose]
    exact List.nodup_nil
  | string value =>
    rw [Expr.diagnose]
    exact List.nodup_nil
  | template l ih =>
    rw [diagnose_template]
    refine pathsDiffer_diagnoseLiteral (fun t ht => ?_) ih
    cases ht
  | kept tag l hr ihtag ih =>
    rw [diagnose_of_resolve_none hr]
    refine pathsDiffer_diagnoseLiteral (fun t ht => ?_) ih
    cases ht
    exact ihtag
  | replaced tag l r body d hr ihr ih =>
    -- the body's own fault is the only one without a step
    rw [diagnose_of_resolve_some hr, bodyFaults]
    have hparts := pathsDiffer_diagnoseLiteral ihr ih
    cases body.normalize with
    | ok body' => exact hparts
    | error cause =>
      refine PathsDiffer.append (List.nodup_singleton _) hparts ?_
      intro f hf g hg heq
      rw [List.mem_singleton.mp hf] at heq
      exact path_ne_nil_of_mem_diagnoseLiteral hg (List.head?_eq_none_iff.mp heq.symm)
  | call callee arguments ihcallee ih =>
    rw [Expr.diagnose]
    refine (ihcallee.under .callee).append
      (pathsDiffer_diagnoseAll (fun _ _ h => Step.argument.inj h) ih 0) ?_
    intro f hf g hg heq
    obtain ⟨k, hk⟩ := head?_of_mem_diagnoseAll hg
    rw [head?_of_mem_under hf, hk] at heq
    cases heq
  | member object property ih =>
    rw [Expr.diagnose]
    exact ih.under .object
  | array elements ih =>
    rw [Expr.diagnose]
    exact pathsDiffer_diagnoseAll (fun _ _ h => Step.element.inj h) ih 0

/-! ### Faults of a program -/

/-- No two faults of a program are reported at the same spelled path. -/
theorem diagnosed_path_texts_differ (p : Program) :
    (p.diagnose.map fun f => f.path.text).Nodup := by
  have hpaths : PathsDiffer p.diagnose :=
    pathsDiffer_diagnoseAll (fun _ _ h => Step.body.inj h) (fun e _ => pathsDiffer_diagnose e) 0
  have hne : ∀ path ∈ p.diagnose.map Fault.path, path ≠ [] := by
    intro path hpath
    obtain ⟨f, hf, rfl⟩ := List.mem_map.mp hpath
    obtain ⟨k, c, g, -, -, rfl⟩ := mem_diagnoseAll hf
    exact List.cons_ne_nil _ _
  have htexts : p.diagnose.map (fun f => f.path.text) =
      (p.diagnose.map Fault.path).map Path.text := by
    rw [List.map_map]
    rfl
  rw [htexts]
  exact hpaths.map_on fun path h path' h' =>
    Path.text_injective (hne path h) (hne path' h')

end OverDelimited
