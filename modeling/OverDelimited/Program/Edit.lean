import OverDelimited.Chain
import OverDelimited.Pipeline

/-!
# Editing programs

Small changes to a program, one expression at a time, and whether a program survives being written
and read again.  This is what a caller does between passes: nothing else in the library uses it, and
the specification does not ask for it.
-/

namespace OverDelimited

namespace Expr

/-- The expression as the only placeholder of a literal, between two texts without escapes. -/
def embed (before after : String) (e : Expr) : Expr :=
  .template (.hole (.ofText before) e (.text (.ofText after)))

/-- The expression taken apart, if it is a tagged literal. -/
def tagged? : Expr → Option Tagged
  | tagged tag l => some ⟨tag, l⟩
  | _ => none

end Expr

namespace Program

/-- The program without a body. -/
def empty : Program :=
  ⟨[]⟩

/-- Adds an expression at the end. -/
def push (p : Program) (e : Expr) : Program :=
  ⟨p.body ++ [e]⟩

/-- Takes the last expression off, if there is one. -/
def pop (p : Program) : Option Expr × Program :=
  (p.body.getLast?, ⟨p.body.dropLast⟩)

/-- Gathers the whole body in one array. -/
def collect (p : Program) : Program :=
  ⟨[.array p.body]⟩

/-- Puts an expression in the place of another. -/
def set (p : Program) (index : Nat) (e : Expr) : Program :=
  ⟨p.body.set index e⟩

/-- Whether the program is the same once it has been written and read again. -/
def survives (f : Format) (p : Program) : Except StageError Bool :=
  (Stage.andThen (.serialize f true) (.parse f) p).map fun q => decide (q = p)

end Program

end OverDelimited
