import OverDelimited.Format
import OverDelimited.Setting.Address
import OverDelimited.Toml.Document

/-!
# Settings

How programs are read, written and checked.  Settings come in layers over the built-in ones: files
in the order they are given, and after all files the single settings a caller overrides.  Where the
names in one file collide the outcome is open (`Settings.Outcome`); `Settings.ofLayers` takes the
entries of a file as they are listed.  The settings are those of the specification, section 10.10.
-/

namespace OverDelimited

/-- How the format of a program is found. -/
inductive InputFormat where
  /-- By the name of the file. -/
  | auto
  | fixed (format : Format)
deriving DecidableEq, Repr

/-- The format to read a file with. -/
def InputFormat.resolve : InputFormat → String → Format
  | auto, path => Format.ofPath path
  | fixed format, _ => format

/-- The settings. -/
structure Settings where
  inputFormat : InputFormat
  outputFormat : Format
  /-- Whether written JSON is spread over lines. -/
  pretty : Bool
  /-- How many malformed literals a check lists; zero lists all. -/
  maxReported : Nat
deriving DecidableEq, Repr

/-- How many malformed literals a check lists, if there is a limit. -/
def Settings.limit (s : Settings) : Option Nat :=
  if s.maxReported = 0 then none else some s.maxReported

/-- Why there are no settings. -/
inductive SettingsError where
  /-- An overridden key is no address. -/
  | badAddress
  /-- A file that must be there is not. -/
  | missingFile
  /-- A file is no TOML document. -/
  | badFile
  /-- The value at a key cannot be taken as what the key needs. -/
  | badValue (key : String)
  /-- A section is not made of its settings, or a format is none. -/
  | badSection
deriving DecidableEq, Repr

/-! ### Values of settings -/

namespace Setting

/-- The words for a switch that is on. -/
def onWords : List String := ["true", "on", "yes"]

/-- The words for a switch that is off. -/
def offWords : List String := ["false", "off", "no"]

/-- A text without its case, as far as words and formats are spelled with. -/
def foldText (s : String) : String :=
  String.ofList (s.toList.map Char.toLower)

/-- A setting taken as a switch. -/
def toBool? : Setting → Option Bool
  | bool b => some b
  | int i => some (i != 0)
  | float x => some (x != 0.0)
  | text s =>
    let word := foldText s
    if word ∈ "1" :: onWords then some true
    else if word ∈ "0" :: offWords then some false
    else none
  | _ => none

/-- The number of 64 bits that decimal digits after an optional plus sign spell. -/
def natural? (s : String) : Option Nat := do
  let digits := match s.toList with
    | '+' :: rest => rest
    | cs => cs
  let n ← Text.digits? 10 digits
  if Text.fits 64 n then some n else none

/-- A setting taken as a count of 64 bits.  A float is rounded, halves away from zero, and kept in
range. -/
def toCount? : Setting → Option Nat
  | bool b => some (if b then 1 else 0)
  | int i => if 0 ≤ i ∧ Text.fits 64 i.toNat then some i.toNat else none
  | float x => some x.round.toUInt64.toNat
  | text s =>
    let word := foldText s
    if word ∈ onWords then some 1
    else if word ∈ offWords then some 0
    else natural? s
  | _ => none

/-- A setting taken as one of the given names: a text, or a table with one key. -/
def toName? (names : List String) : Setting → Option String
  | text s => names.find? fun name => name == foldText s
  | table [(key, _)] => names.find? fun name => name == foldText key
  | _ => none

end Setting

/-! ### Reading the settings off a tree -/

namespace Settings

/-- A setting of a section with the key it is at.  The settings of a section given as a list are
told by their places. -/
def find (part name : String) (place : Nat) :
    Setting → Except SettingsError (Option (String × Setting))
  | .table entries => .ok ((entries.lookup name).map fun s => (part ++ "." ++ name, s))
  | .list items => .ok (items[place]?.map fun s => (part ++ "[" ++ toString place ++ "]", s))
  | _ => .error .badSection

/-- Takes a setting as a format, an unknown one being an error of its section. -/
def toFormat (names : List String) : Option (String × Setting) →
    Except SettingsError (Option String)
  | none => .ok none
  | some (_, s) =>
    match s.toName? names with
    | some name => .ok (some name)
    | none => .error .badSection

/-- Takes a setting as a value, an unfit one being an error at its key. -/
def toValue {α : Type} (convert : Setting → Option α) : Option (String × Setting) →
    Except SettingsError (Option α)
  | none => .ok none
  | some (key, s) =>
    match convert s with
    | some a => .ok (some a)
    | none => .error (.badValue key)

/-- A setting that must be there. -/
def required {α : Type} : Option α → Except SettingsError α
  | some a => .ok a
  | none => .error .badSection

/-- How programs are read. -/
def inputOf (s : Setting) : Except SettingsError InputFormat := do
  let name ← required (← toFormat ["auto", "json", "yaml"] (← find "input" "format" 0 s))
  match Format.ofName? name with
  | some format => return .fixed format
  | none => return .auto

/-- How programs are written.  What is there is looked at before what is missing. -/
def outputOf (s : Setting) : Except SettingsError (Format × Bool) := do
  let name ← toFormat ["json", "yaml"] (← find "output" "format" 0 s)
  let pretty ← toValue Setting.toBool? (← find "output" "pretty" 1 s)
  return (← required (name.bind Format.ofName?), ← required pretty)

/-- How much a check lists. -/
def checkOf (s : Setting) : Except SettingsError Nat := do
  required (← toValue Setting.toCount? (← find "check" "max_reported" 0 s))

/-- The settings of a tree. -/
def ofSetting (root : Setting) : Except SettingsError Settings := do
  let inputFormat ← inputOf (← required (root.entries.lookup "input"))
  let (outputFormat, pretty) ← outputOf (← required (root.entries.lookup "output"))
  let maxReported ← checkOf (← required (root.entries.lookup "check"))
  return ⟨inputFormat, outputFormat, pretty, maxReported⟩

/-! ### Layers -/

/-- The built-in settings: formats by the file name and JSON, spread over lines, and no limit. -/
def builtIn : Setting :=
  .table [
    ("input", .table [("format", .text "auto")]),
    ("output", .table [("format", .text "json"), ("pretty", .bool true)]),
    ("check", .table [("max_reported", .int 0)])]

/-- One layer over the built-in settings. -/
inductive Layer where
  /-- A file, without a text if it does not exist. -/
  | file (required : Bool) (text : Option String)
  /-- A single setting, over all files. -/
  | override (key : String) (value : Setting)

namespace Layer

/-- The overrides among layers with their addresses. -/
def overrides : List Layer → Except SettingsError (List (Setting.Address × Setting))
  | [] => .ok []
  | file _ _ :: rest => overrides rest
  | override key value :: rest => do
    match Setting.Address.read? key with
    | none => .error .badAddress
    | some address => return (address, value) :: (← overrides rest)

/-- The entries of the files among layers. -/
def files : List Layer → Except SettingsError (List (List (String × Setting)))
  | [] => .ok []
  | override _ _ :: rest => files rest
  | file _ (some text) :: rest =>
    match Toml.read text with
    | none => .error .badFile
    | some entries => (files rest).map (entries :: ·)
  | file required none :: rest =>
    if required then .error .missingFile else files rest

end Layer

/-- The overrides that count: of those with one address, the last. -/
def lastGiven : List (Setting.Address × Setting) → List (Setting.Address × Setting)
  | [] => []
  | (address, value) :: rest =>
    if rest.any fun later => later.1 = address then lastGiven rest
    else (address, value) :: lastGiven rest

/-- The settings that layers make.  An override that is no address is found first. -/
def ofLayers (layers : List Layer) : Except SettingsError Settings := do
  let overrides ← Layer.overrides layers
  let files ← Layer.files layers
  let root := files.foldl (fun root entries => root.layer entries) builtIn
  ofSetting (Setting.assignAll (lastGiven overrides) root)

/-! ### Order -/

/-- `Puts files root root'`: files put over one tree, one after another, make another tree.  The
entries of each may be taken in any order. -/
inductive Puts : List (List (String × Setting)) → Setting → Setting → Prop
  | nil (root : Setting) : Puts [] root root
  | cons {entries entries' : List (String × Setting)} {files : List (List (String × Setting))}
    {root root' : Setting} (hentries : Setting.Rearranged entries entries')
    (h : Puts files (root.layer entries') root') : Puts (entries :: files) root root'

theorem puts_foldl (files : List (List (String × Setting))) (root : Setting) :
    Puts files root (files.foldl (fun root entries => root.layer entries) root) := by
  induction files generalizing root with
  | nil => exact .nil root
  | cons entries files ih => exact .cons (.refl entries) (ih _)

/-- What layers can come to.  The order of the files is that of the layers, but the entries of a
file have no order, nor have the overrides that count. -/
inductive Outcome (layers : List Layer) : Except SettingsError Settings → Prop
  | noOverrides {e : SettingsError} (h : Layer.overrides layers = .error e) :
    Outcome layers (.error e)
  | noFiles {overrides : List (Setting.Address × Setting)} {e : SettingsError}
    (hoverrides : Layer.overrides layers = .ok overrides) (h : Layer.files layers = .error e) :
    Outcome layers (.error e)
  | made {overrides overrides' : List (Setting.Address × Setting)}
    {files : List (List (String × Setting))} {root : Setting}
    (hoverrides : Layer.overrides layers = .ok overrides) (hfiles : Layer.files layers = .ok files)
    (hputs : Puts files builtIn root) (horder : overrides'.Perm (lastGiven overrides)) :
    Outcome layers (ofSetting (Setting.assignAll overrides' root))

/-- Taking entries and overrides as they are listed is one of the ways. -/
theorem outcome_ofLayers (layers : List Layer) : Outcome layers (ofLayers layers) := by
  unfold ofLayers
  cases hoverrides : Layer.overrides layers with
  | error e => exact .noOverrides hoverrides
  | ok overrides =>
    cases hfiles : Layer.files layers with
    | error e => exact .noFiles hoverrides hfiles
    | ok files => exact .made hoverrides hfiles (puts_foldl files builtIn) (.refl _)

end Settings

end OverDelimited
