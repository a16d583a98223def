import OverDelimited.Json.Printer
import OverDelimited.Json.Reader
import OverDelimited.Program.Decode
import OverDelimited.Program.Encode
import OverDelimited.Yaml.Printer
import OverDelimited.Yaml.Reader

/-!
# Formats of serialized programs

Programs are exchanged as JSON or YAML.  A file's format is told by the extension of its name
(specification, section 10.7).
-/

namespace OverDelimited

/-- A format. -/
inductive Format where
  | json
  | yaml
deriving DecidableEq, Repr

namespace Format

/-- The name of a format. -/
def name : Format → String
  | json => "json"
  | yaml => "yaml"

/-- The format of the given name. -/
def ofName? (s : String) : Option Format :=
  [json, yaml].find? fun f => f.name == s

/-! ### File names -/

/-- The last component of a path, unless the path ends in the root or leads back up. -/
def fileName? (path : List Char) : Option (List Char) :=
  let components := (path.splitBy fun a b => a ≠ '/' && b ≠ '/').filter fun part =>
    part ≠ ['.'] && part ≠ ['/']
  match components.getLast? with
  | some ['.', '.'] => none
  | last => last

/-- What follows the last dot of a file name, unless that dot is its first character. -/
def extension? (file : List Char) : Option (List Char) :=
  let after := (file.reverse.takeWhile (· ≠ '.')).reverse
  if after.length + 1 < file.length then some after else none

/-- The format a file is in by its name. -/
def ofPath (path : String) : Format :=
  match (fileName? path.toList).bind extension? with
  | some ['y', 'a', 'm', 'l'] | some ['y', 'm', 'l'] => yaml
  | _ => json

end Format

/-! ### Reading and writing -/

/-- Why a text holds no program. -/
inductive ReadError where
  /-- The text does not keep to the rules of its format, or is nested too deeply. -/
  | malformed
  /-- The text is data, but not of a program. -/
  | invalid (error : DecodeError)
deriving DecidableEq, Repr

/-- The wording of an error, for those that have one of their own. -/
def ReadError.message? : ReadError → Option String
  | malformed => none
  | invalid error => error.message?

/-- How deep a JSON text may be nested where it is looked at. -/
def Json.nestingLimit : Nat := 127

/-- The program a JSON text holds. -/
def Json.readProgram (text : List Char) : Except ReadError Program :=
  match Json.read text with
  | none => .error .malformed
  | some d => (Program.ofDatum Json.nestingLimit d).mapError .invalid

namespace Format

/-- The program a text holds. -/
def read (f : Format) (text : String) : Except ReadError Program :=
  match f with
  | json => Json.readProgram text.toList
  | yaml =>
    match Yaml.readProgram text.toList with
    | some p => .ok p
    | none => .error .malformed

/-- The text of a program; only JSON can be spread over lines or not. -/
def print (f : Format) (spread : Bool) (p : Program) : String :=
  match f with
  | json => String.ofList (Json.print spread p.toTree)
  | yaml => String.ofList (Yaml.print p.toTree)

end Format

end OverDelimited
