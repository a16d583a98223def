import OverDelimited.CommandLine.Outcome
import OverDelimited.Proofs.Agreement
import OverDelimited.Proofs.JsonText

/-!
# The two commands

Both commands load the same settings and the same program.  One collapses the program and the other
lists its malformed literals, and collapsing fails exactly with the first diagnosis, so the commands
end alike.  A report lists faults up to a limit, one a line, and says how many it leaves out.  What
is said of messages holds at every verbosity because logged events are no part of an outcome.
-/

namespace OverDelimited

/-! ### Texts of one line -/

/-- A text without a line break. -/
def OneLine (s : String) : Prop :=
  '\n' ∉ s.toList

instance (s : String) : Decidable (OneLine s) :=
  inferInstanceAs (Decidable ('\n' ∉ s.toList))

theorem OneLine.append {s t : String} (hs : OneLine s) (ht : OneLine t) : OneLine (s ++ t) := by
  unfold OneLine at *
  rw [String.toList_append, List.mem_append]
  exact not_or_intro hs ht

theorem oneLine_toString (n : Nat) : OneLine (toString n) := by
  intro h
  rw [Nat.toString_eq_repr, Nat.toList_repr] at h
  exact absurd (Nat.isDigit_of_mem_toDigits (by decide) (by decide) h) (by decide)

theorem oneLine_intercalate {separator : String} (hs : OneLine separator) {ts : List String}
    (h : ∀ t ∈ ts, OneLine t) : OneLine (separator.intercalate ts) := by
  induction ts with
  | nil => exact (by decide : OneLine "")
  | cons t rest ih =>
    have ht := h t (List.mem_cons_self ..)
    have hrest := ih fun u hu => h u (List.mem_cons_of_mem _ hu)
    cases rest with
    | nil => simpa [OneLine, String.toList_intercalate] using ht
    | cons u rest =>
      rw [OneLine, String.toList_intercalate, List.map_cons, List.map_cons,
        List.intercalate_cons_cons, ← List.map_cons, ← String.toList_intercalate,
        ← String.toList_append, ← String.toList_append]
      exact (ht.append hs).append hrest

theorem oneLine_step (step : Step) : OneLine step.text := by
  have hindex : ∀ {name : String} (i : Nat), OneLine name → OneLine (name ++ toString i ++ "]") :=
    fun i h => (h.append (oneLine_toString i)).append (by decide)
  cases step with
  | body i | placeholder i | argument i | element i => exact hindex i (by decide)
  | tag | callee | object => show OneLine _; decide

theorem oneLine_cause (m : Malformed) : OneLine m.message := by
  cases m with
  | missingLeadingNewline => decide
  | inconsistentMargin segment line =>
    exact .append (.append (.append (.append (by decide) (oneLine_toString line)) (by decide))
      (oneLine_toString segment)) (by decide)

theorem oneLine_path (path : Path) : OneLine path.text := by
  cases path with
  | nil => decide
  | cons step rest =>
    apply oneLine_intercalate (by decide)
    intro t ht
    obtain ⟨step, -, rfl⟩ := List.mem_map.mp ht
    exact oneLine_step step

theorem oneLine_fault (f : Fault) : OneLine f.message :=
  ((oneLine_path f.path).append (by decide)).append (oneLine_cause f.cause)

/-! ### Sources -/

namespace Source

/-- Collapsing a source is collapsing the program it holds. -/
theorem collapse_eq_bind (s : Source) :
    s.collapse = s.program.bind fun p => p.collapse.mapError (.stage ∘ .collapse) := by
  simp only [collapse, program, run, Stage.standard, Stage.andThen, Stage.collapse]
  cases Stage.parse s.format s.text with
  | error e => rfl
  | ok p =>
    show Except.mapError _ (Except.mapError _ p.collapse) = Except.mapError _ p.collapse
    cases p.collapse <;> rfl

theorem collapse_of_diagnose_nil {s : Source} (h : s.diagnose = .ok []) :
    ∃ q, s.collapse = .ok q := by
  rw [diagnose] at h
  rw [collapse_eq_bind]
  cases hp : s.program with
  | error e => rw [hp] at h; cases h
  | ok p =>
    rw [hp] at h
    have hnone : errorOf p.collapse = none := by
      rw [errorOf_collapse_program, (Except.ok.inj h : p.diagnose = [])]
      rfl
    obtain ⟨q, hq⟩ := errorOf_eq_none_iff.mp hnone
    exact ⟨q, by rw [Except.bind, hq]; rfl⟩

theorem collapse_of_diagnose_cons {s : Source} {first : Fault} {rest : List Fault}
    (h : s.diagnose = .ok (first :: rest)) : s.collapse = .error (.stage (.collapse first)) := by
  rw [diagnose] at h
  rw [collapse_eq_bind]
  cases hp : s.program with
  | error e => rw [hp] at h; cases h
  | ok p =>
    rw [hp] at h
    have hsome : errorOf p.collapse = some first := by
      rw [errorOf_collapse_program, (Except.ok.inj h : p.diagnose = first :: rest)]
      rfl
    rw [Except.bind, errorOf_eq_some_iff.mp hsome]
    rfl

theorem collapse_of_diagnose_error {s : Source} {e : SourceError} (h : s.diagnose = .error e) :
    s.collapse = .error e := by
  rw [diagnose] at h
  rw [collapse_eq_bind]
  cases hp : s.program with
  | error e' => rw [hp] at h; cases h; rfl
  | ok p => rw [hp] at h; cases h

end Source

namespace CommandLine

theorem code_runCheck_iff (settings : Settings) (path : String) (target : Option Format)
    (compact : Bool) (source : Except SourceError Source) :
    (runCheck settings path source).code = 0 ↔
      (runCollapse settings target compact source).code = 0 := by
  cases source with
  | error e => rfl
  | ok s =>
    simp only [runCheck, runCollapse, Except.bind]
    cases hd : s.diagnose with
    | error e => rw [Source.collapse_of_diagnose_error hd]
    | ok faults =>
      cases faults with
      | nil =>
        obtain ⟨q, hq⟩ := Source.collapse_of_diagnose_nil hd
        rw [hq]
      | cons first rest =>
        rw [Source.collapse_of_diagnose_cons hd]
        rfl

/-! ### Reports -/

/-- The line that a report has for a fault. -/
def faultLine (path : String) (f : Fault) : String :=
  path ++ ": " ++ f.message

/-- The faults that a report lists when it lists at most `most`, or all if that is zero. -/
def listedFaults (most : Nat) (faults : List Fault) : List Fault :=
  if most = 0 then faults else faults.take most

/-- How many faults a report leaves out. -/
def leftOut (most count : Nat) : Nat :=
  if 0 < most ∧ most < count then count - most else 0

/-- The line on the faults that are left out, if there are any. -/
def leftOutLines (most count : Nat) : List String :=
  if 0 < most ∧ most < count then ["... and " ++ toString (count - most) ++ " more"] else []

/-- Lines one below the other. -/
def unlines (lines : List String) : String :=
  String.join (lines.map (· ++ "\n"))

theorem length_listedFaults (most : Nat) (faults : List Fault) :
    (listedFaults most faults).length =
      if most = 0 then faults.length else min faults.length most := by
  unfold listedFaults
  split
  · rfl
  · rw [List.length_take, Nat.min_comm]

theorem length_listedFaults_add_leftOut (most : Nat) (faults : List Fault) :
    (listedFaults most faults).length + leftOut most faults.length = faults.length := by
  rw [length_listedFaults, leftOut]
  split <;> split <;> omega

theorem head_listedFaults (most : Nat) (first : Fault) (rest : List Fault) :
    (listedFaults most (first :: rest)).head? = some first := by
  unfold listedFaults
  split
  · rfl
  · next h =>
    obtain ⟨most, rfl⟩ := Nat.exists_eq_succ_of_ne_zero h
    rfl

theorem reportLines_eq (path : String) (settings : Settings) (faults : List Fault) :
    reportLines path settings.limit faults =
      (listedFaults settings.maxReported faults).map (faultLine path) ++
        leftOutLines settings.maxReported faults.length := by
  simp only [reportLines, Settings.limit, listedFaults, leftOutLines]
  by_cases h : settings.maxReported = 0
  · simp [h, faultLine]
  · simp [h, Nat.pos_of_ne_zero h]
    rfl

/-- A program with two literals that do not start with a line break. -/
def twoFlush : Program :=
  ⟨[.close 1 (.tagged (.template .trivial) (.ofText "a")),
    .close 1 (.tagged (.template .trivial) (.ofText "b"))]⟩

/-- The program, and settings by which one literal is listed. -/
def twoFlushFiles : Files := fun path =>
  if path = "limits.toml" then .text "[check]\nmax_reported = 1\n"
  else if path = "tree.json" then .text (Format.json.print false twoFlush)
  else .missing

end CommandLine

end OverDelimited
