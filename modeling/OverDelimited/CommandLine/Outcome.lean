import OverDelimited.CommandLine.Invocation
import OverDelimited.Pipeline
import OverDelimited.Settings
import OverDelimited.Text.Whitespace

/-!
# Outcomes

What a run of the tool prints and the code it ends with, given what is in the files it looks at.
Settings are loaded first, then the program (specification, section 10.11).  Events that are logged,
more of them the more verbose a run is, are left out (section 10.9): they carry times, and neither
the code nor the listing depends on them.
-/

namespace OverDelimited.CommandLine

/-- What is found at a path. -/
inductive Entry where
  | text (content : String)
  | missing
  | directory
  /-- A file that holds no text, or that the system keeps closed. -/
  | closed (reason : String)
deriving DecidableEq, Repr

/-- What is found at each path. -/
abbrev Files := String → Entry

/-- What a run ends with. -/
structure Outcome where
  code : Nat
  out : String
  /-- The messages, without the events that are logged. -/
  err : String
deriving DecidableEq, Repr

/-! ### Loading -/

/-- The wording of an error in the settings. -/
def settingsMessage : SettingsError → String
  | .badAddress => "a key is no address"
  | .missingFile => "configuration file not found"
  | .badFile => "the file is no TOML document"
  | .badValue key => "invalid type for key " ++ key
  | .badSection => "invalid section or format"

/-- The text of a file of settings, at the path itself or with the extension of its format. -/
def settingsText (files : Files) (path : String) : Option String :=
  match files path with
  | .text content => some content
  | _ =>
    match files (path ++ ".toml") with
    | .text content => some content
    | _ => none

/-- The settings of an invocation. -/
def loadSettings (files : Files) (config : Option String) : Except SettingsError Settings :=
  match config with
  | none => Settings.ofLayers []
  | some path => Settings.ofLayers [.file true (settingsText files path)]

/-- The program at a path, in the format that is asked for or that the settings tell. -/
def openSource (files : Files) (settings : Settings) (format : Option Format) (path : String) :
    Except SourceError Source :=
  match files path with
  | .text content => .ok ⟨content, format.getD (settings.inputFormat.resolve path)⟩
  | .missing => .error (.io "No such file or directory (os error 2)")
  | .directory => .error (.io "Is a directory (os error 21)")
  | .closed reason => .error (.io reason)

/-! ### Commands -/

/-- Ends with a message. -/
def failure (message : String) : Outcome :=
  ⟨1, "", message ++ "\n"⟩

/-- Ends with the wording of a source error. -/
def sourceFailure (e : SourceError) : Outcome :=
  failure ("Error: " ++ e.message)

/-- A text as it is printed: without the white space at its end, on lines of its own. -/
def printed (text : String) : String :=
  String.ofList (Text.trimEnd text.toList) ++ "\n"

/-- Prints the collapsed program. -/
def runCollapse (settings : Settings) (target : Option Format) (compact : Bool)
    (source : Except SourceError Source) : Outcome :=
  match source.bind Source.collapse with
  | .error e => sourceFailure e
  | .ok p =>
    let text := (target.getD settings.outputFormat).print (settings.pretty && !compact) p
    ⟨0, printed text, ""⟩

/-- The lines of a report on malformed literals: one a literal up to the limit, and the number of
those left out. -/
def reportLines (path : String) (limit : Option Nat) (faults : List Fault) : List String :=
  let listed := limit.getD faults.length
  (faults.take listed).map (fun f => path ++ ": " ++ f.message) ++
    (if listed < faults.length then
      ["... and " ++ toString (faults.length - listed) ++ " more"]
    else [])

/-- Lists the malformed literals. -/
def runCheck (settings : Settings) (path : String) (source : Except SourceError Source) : Outcome :=
  match source.bind Source.diagnose with
  | .error e => sourceFailure e
  | .ok [] => ⟨0, path ++ ": no malformed literals\n", ""⟩
  | .ok faults =>
    ⟨1, String.join ((reportLines path settings.limit faults).map (· ++ "\n")), ""⟩

/-- Runs an invocation.  Its verbosity bears only on what is logged, and that is no part of the
outcome. -/
def Invocation.run (files : Files) (i : Invocation) : Outcome :=
  match loadSettings files i.config with
  | .error e => failure ("Error loading configuration: " ++ settingsMessage e)
  | .ok settings =>
    match i.command with
    | .collapse path target compact =>
      runCollapse settings target compact (openSource files settings i.source path)
    | .check path => runCheck settings path (openSource files settings i.source path)

/-- The path a command works on. -/
def Command.path : Command → String
  | collapse path _ _ => path
  | check path => path

/-- The paths that an invocation looks at. -/
def Invocation.paths (i : Invocation) : List String :=
  match i.config with
  | none => [i.command.path]
  | some config => [config, config ++ ".toml", i.command.path]

/-! ### Requests -/

/-- How the tool is used. -/
def usage : String :=
  "Usage: multitick [OPTIONS] <COMMAND>\n\n" ++
    "Commands:\n" ++
    "  rewrite <PATH> [--to json|yaml] [--compact]\n" ++
    "  check <PATH>\n\n" ++
    "Options:\n" ++
    "  -c, --config <FILE>\n" ++
    "  -v, --verbose\n" ++
    "      --from json|yaml\n" ++
    "  -h, --help\n" ++
    "  -V, --version\n"

/-- Does what the words of a command line ask for. -/
def run (files : Files) (words : List String) : Outcome :=
  match Request.ofWords words with
  | .run i => i.run files
  | .version => ⟨0, "multitick 0.1.0\n", ""⟩
  | .help => ⟨0, usage, ""⟩
  | .misuse => ⟨2, "", usage⟩

end OverDelimited.CommandLine
