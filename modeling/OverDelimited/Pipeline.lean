import OverDelimited.Collapse
import OverDelimited.Format

/-!
# Pipelines

A stage turns one value into another or fails under its own name.  Stages are joined end to end;
the first failure is the failure of the whole.  These are the transforms and the loader of the
specification, sections 10.6 and 10.7.
-/

namespace OverDelimited

/-! ### Failures -/

/-- Why a stage failed. -/
inductive StageError where
  | parse (error : ReadError)
  | normalize (cause : Malformed)
  | collapse (fault : Fault)
  /-- A stage of the caller's own. -/
  | custom (stage text : String)
deriving DecidableEq, Repr

namespace StageError

/-- The name of the stage that failed. -/
def stage : StageError → String
  | parse _ => "ParseProgram"
  | normalize _ => "NormalizeMargins"
  | collapse _ => "RewriteProgram"
  | custom stage _ => stage

/-- What the stage has to say, as far as it is worded here. -/
def text? : StageError → Option String
  | parse error => error.message?
  | normalize cause => some cause.message
  | collapse fault => some fault.message
  | custom _ text => some text

/-- The wording of a failure. -/
def message (e : StageError) : String :=
  "Stage '" ++ e.stage ++ "' failed: " ++ e.text?.getD ""

end StageError

/-! ### Stages -/

/-- A stage from one type of value to another. -/
abbrev Stage (α β : Type) := α → Except StageError β

namespace Stage

/-- One stage after another. -/
def andThen {α β γ : Type} (first : Stage α β) (second : Stage β γ) : Stage α γ :=
  fun a =>
    match first a with
    | .error e => .error e
    | .ok b => second b

/-- Reads a program. -/
def parse (f : Format) : Stage String Program :=
  fun text => (f.read text).mapError .parse

/-- Writes a program. -/
def serialize (f : Format) (spread : Bool) : Stage Program String :=
  fun p => .ok (f.print spread p)

/-- Collapses every over-delimited literal. -/
def collapse : Stage Program Program :=
  fun p => p.collapse.mapError .collapse

/-- Trims and dedents one literal. -/
def normalize : Stage (Literal Expr) (Literal Expr) :=
  fun l => l.normalize.mapError .normalize

/-- Resolves one tagged literal. -/
def resolve : Stage Tagged (Option Match) :=
  fun n => .ok n.resolve

-- The three stages that follow stand for stages of a caller's own; nothing else here uses them.

/-- Reverses the body. -/
def reverse : Stage Program Program :=
  fun p => .ok ⟨p.body.reverse⟩

/-- Refuses a program without a body. -/
def requireBody : Stage Program Program :=
  fun p => if p.body.isEmpty then .error (.custom "require" "empty body") else .ok p

/-- Counts the lines of a text; a text without lines is refused. -/
def countLines : Stage String Nat :=
  fun text =>
    let lines := Text.Lines.ofText text.toList
    let count := lines.later.length +
      (if (lines.first :: lines.later).getLast? = some [] then 0 else 1)
    if count = 0 then .error (.custom "lines" "no lines") else .ok count

/-- The stages in a row. -/
def all (stages : List (Stage Program Program)) : Stage Program Program :=
  stages.foldr andThen fun p => .ok p

/-- From text to the collapsed program. -/
def standard (f : Format) : Stage String Program :=
  andThen (parse f) collapse

end Stage

/-! ### Sources -/

/-- A serialized program and the format it is in. -/
structure Source where
  text : String
  format : Format

/-- Why a source could not be loaded or used. -/
inductive SourceError where
  /-- The file could not be read, in the words of the system. -/
  | io (reason : String)
  | stage (error : StageError)
deriving DecidableEq, Repr

/-- The wording of a source error. -/
def SourceError.message : SourceError → String
  | io reason => "IO error: " ++ reason
  | stage error => "Transform error: " ++ error.message

namespace Source

/-- Runs a stage on the text. -/
def run {α : Type} (s : Source) (stage : Stage String α) : Except SourceError α :=
  (stage s.text).mapError .stage

/-- The program as written. -/
def program (s : Source) : Except SourceError Program :=
  s.run (Stage.parse s.format)

/-- The program with every over-delimited literal collapsed. -/
def collapse (s : Source) : Except SourceError Program :=
  s.run (Stage.standard s.format)

/-- The malformed literals of the program. -/
def diagnose (s : Source) : Except SourceError (List Fault) :=
  s.program.map Program.diagnose

end Source

end OverDelimited
