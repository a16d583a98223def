import OverDelimited.Format

/-!
# Invocations

What the words of a command line ask for.  Some options stand before or after the name of the
command; those after it win.  Within one of the two places an option is given at most once, except
that verbosity is counted.  The commands are those of the specification, section 10.11.
-/

namespace OverDelimited.CommandLine

/-- A command with its own options. -/
inductive Command where
  /-- Print a program with every over-delimited literal collapsed. -/
  | collapse (path : String) (target : Option Format) (compact : Bool)
  /-- List the malformed literals of a program. -/
  | check (path : String)
deriving DecidableEq, Repr

/-- A command with the options that all commands have. -/
structure Invocation where
  /-- The file of settings. -/
  config : Option String
  verbosity : Nat
  /-- The format of the program, if it is not left to the settings. -/
  source : Option Format
  command : Command
deriving DecidableEq, Repr

/-- What a command line asks for. -/
inductive Request where
  | run (invocation : Invocation)
  | version
  | help
  /-- The words make no sense. -/
  | misuse
deriving DecidableEq, Repr

/-! ### Where words stand -/

/-- Where a word stands: before the name of a command or after it. -/
inductive Scope where
  | top
  | collapse
  | check
  | help
deriving DecidableEq, Repr

/-- The command of the given name. -/
def Scope.ofName? (name : String) : Option Scope :=
  if name = "rewrite" then some .collapse
  else if name = "check" then some .check
  else if name = "help" then some .help
  else none

/-- An option that takes a value. -/
inductive Slot where
  | config
  | source
  | target
deriving DecidableEq, Repr

/-- An option without a value. -/
inductive Switch where
  | verbose
  | compact
  | help
  | version
deriving DecidableEq, Repr

/-- The option with a value of the given long name. -/
def Slot.ofName? (scope : Scope) (name : String) : Option Slot :=
  if name = "config" then some .config
  else if name = "from" then some .source
  else if name = "to" && scope = .collapse then some .target
  else none

/-- The option without a value of the given long name. -/
def Switch.ofName? (scope : Scope) (name : String) : Option Switch :=
  if name = "verbose" then some .verbose
  else if name = "help" then some .help
  else if name = "compact" && scope = .collapse then some .compact
  else if name = "version" && scope = .top then some .version
  else none

/-! ### What has been given -/

/-- What has been given in one scope. -/
structure Given where
  config : Option String := none
  verbosity : Nat := 0
  source : Option Format := none
  target : Option Format := none
  compact : Bool := false
  path : Option String := none

namespace Given

/-- Gives a value to an option, once and of its kind. -/
def fill (slot : Slot) (value : String) (g : Given) : Option Given :=
  match slot with
  | .config =>
    if g.config.isSome || value.isEmpty then none else some { g with config := some value }
  | .source =>
    match g.source, Format.ofName? value with
    | none, some f => some { g with source := some f }
    | _, _ => none
  | .target =>
    match g.target, Format.ofName? value with
    | none, some f => some { g with target := some f }
    | _, _ => none

/-- Gives the path, once and not empty. -/
def fillPath (value : String) (g : Given) : Option Given :=
  if g.path.isSome || value.isEmpty then none else some { g with path := some value }

end Given

/-- Where the reading of words stands. -/
structure State where
  scope : Scope
  /-- What was given before the name of the command. -/
  before : Given
  given : Given
  /-- The option that the next word is the value of. -/
  pending : Option Slot
  /-- Whether the options have ended. -/
  ended : Bool

namespace State

/-- Nothing read yet. -/
def start : State := ⟨.top, {}, {}, none, false⟩

/-- Sets a switch, or ends the reading. -/
def flip (s : State) : Switch → Except Request State
  | .verbose => .ok { s with given := { s.given with verbosity := s.given.verbosity + 1 } }
  | .compact =>
    if s.given.compact then .error .misuse
    else .ok { s with given := { s.given with compact := true } }
  | .help => .error .help
  | .version => .error .version

/-- Gives a value to an option. -/
def fill (s : State) (slot : Slot) (value : String) : Except Request State :=
  match s.given.fill slot value with
  | some g => .ok { s with given := g, pending := none }
  | none => .error .misuse

/-- Reads a long option, with what follows its equals sign. -/
def long (s : State) (word : List Char) : Except Request State :=
  let name := String.ofList (word.takeWhile (· ≠ '='))
  let value : Option String := match word.dropWhile (· ≠ '=') with
    | _ :: value => some (String.ofList value)
    | [] => none
  match Slot.ofName? s.scope name, value with
  | some slot, some value => s.fill slot value
  | some slot, none => .ok { s with pending := some slot }
  | none, some _ => .error .misuse
  | none, none =>
    match Switch.ofName? s.scope name with
    | some switch => s.flip switch
    | none => .error .misuse

/-- Reads short options that stand in one word; an option with a value takes the rest of it. -/
def short (s : State) : List Char → Except Request State
  | [] => .ok s
  | 'c' :: [] => .ok { s with pending := some .config }
  | 'c' :: '=' :: value => s.fill .config (String.ofList value)
  | 'c' :: value => s.fill .config (String.ofList value)
  | c :: rest => do
    let switch : Switch ←
      if c = 'v' then .ok .verbose
      else if c = 'h' then .ok .help
      else if c = 'V' && s.scope = .top then .ok .version
      else .error .misuse
    short (← s.flip switch) rest

/-- Reads a word that is no option: the value of an option, the name of a command, the path, or the
name of the command that help is asked for. -/
def plain (s : State) (word : String) : Except Request State :=
  match s.pending, s.scope with
  | some slot, _ => s.fill slot word
  | none, .top =>
    match Scope.ofName? word with
    | some scope => if s.ended then .error .misuse else .ok ⟨scope, s.given, {}, none, false⟩
    | none => .error .misuse
  | none, .help =>
    if (Scope.ofName? word).isSome && s.given.path.isNone then
      .ok { s with given := { s.given with path := some word } }
    else .error .misuse
  | none, _ =>
    match s.given.fillPath word with
    | some g => .ok { s with given := g }
    | none => .error .misuse

/-- Reads one word.  An option cannot be the value of another, and help has no options. -/
def word (s : State) (word : String) : Except Request State :=
  if s.ended || s.scope = .help then s.plain word
  else
    match word.toList with
    | ['-', '-'] => if s.pending.isSome then .error .misuse else .ok { s with ended := true }
    | '-' :: '-' :: rest => if s.pending.isSome then .error .misuse else s.long rest
    | '-' :: c :: rest => if s.pending.isSome then .error .misuse else s.short (c :: rest)
    | _ => s.plain word

/-- What all the words ask for. -/
def finish (s : State) : Request :=
  let run (command : Command) : Request :=
    .run ⟨s.given.config.or s.before.config,
      if s.given.verbosity = 0 then s.before.verbosity else s.given.verbosity,
      s.given.source.or s.before.source, command⟩
  match s.pending, s.scope, s.given.path with
  | none, .collapse, some path => run (.collapse path s.given.target s.given.compact)
  | none, .check, some path => run (.check path)
  | none, .help, _ => .help
  | _, _, _ => .misuse

end State

/-- What the words of a command line ask for.  The first word that settles it does. -/
def Request.ofWords (words : List String) : Request :=
  match words.foldlM State.word State.start with
  | .ok s => s.finish
  | .error request => request

end OverDelimited.CommandLine
