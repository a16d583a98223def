import OverDelimited.Proofs.Agreement
import OverDelimited.Proofs.Assignments

/-!
# Layers of settings

Layers come down to one row of assignments: those of the files, in order, and the overrides that
count after them.  So each setting is the one that is overridden last, or else the one of the last
file that sets it (`winner`), and it does not matter in which order the entries of a file and the
overrides are taken.  This needs files that set each place at most once and leave the sections
tables (`Layer.Sound`): names are matched without their case and may spell addresses, so that a file
can reach a setting by a name that is not its own.
-/

namespace OverDelimited.Settings

open Setting (foldName assign assignAll assignmentsOf)

/-! ### Layers -/

namespace Layer

/-- The assignments of a file that is there. -/
def inFile : Layer → List (Setting.Address × Setting)
  | .file _ (some text) => assignmentsOf ((Toml.read text).getD [])
  | _ => []

/-- The assignment of an override. -/
def inOverride : Layer → List (Setting.Address × Setting)
  | .override key v => ((Setting.Address.read? key).map fun a => (a, v)).toList
  | _ => []

/-- A file that is there with entries that are definite, a file that need not be there, or an
override of a place by a valid value. -/
inductive Sound : Layer → Prop where
  | present (required : Bool) {text : String} (h : ∃ es ∈ Toml.read text, Definite es) :
    Sound (.file required (some text))
  | absent : Sound (.file false none)
  | override (p : Place) {v : Setting} (hv : p.takes v = true) : Sound (.override p.key v)

/-- The files of sound layers are all read. -/
theorem files_of_sound {layers : List Layer} (h : ∀ l ∈ layers, l.Sound) :
    ∃ fs, files layers = .ok fs ∧ (∀ es ∈ fs, Definite es) ∧
      fs.flatMap assignmentsOf = layers.flatMap inFile := by
  induction layers with
  | nil => exact ⟨[], rfl, List.forall_mem_nil _, rfl⟩
  | cons l rest ih =>
    obtain ⟨hl, hrest⟩ := List.forall_mem_cons.mp h
    obtain ⟨fs, hfs, hdefinite, hflat⟩ := ih hrest
    cases hl with
    | present required hfile =>
      obtain ⟨es, hread, hes⟩ := hfile
      rw [Option.mem_def] at hread
      refine ⟨es :: fs, ?_, List.forall_mem_cons.mpr ⟨hes, hdefinite⟩, ?_⟩
      · rw [files, hread, hfs]
        rfl
      · rw [List.flatMap_cons, List.flatMap_cons, hflat, inFile, hread]
        rfl
    | absent => exact ⟨fs, hfs, hdefinite, hflat⟩
    | override p hv => exact ⟨fs, hfs, hdefinite, hflat⟩

/-- The overrides of sound layers all have an address. -/
theorem overrides_of_sound {layers : List Layer} (h : ∀ l ∈ layers, l.Sound) :
    overrides layers = .ok (layers.flatMap inOverride) := by
  induction layers with
  | nil => rfl
  | cons l rest ih =>
    obtain ⟨hl, hrest⟩ := List.forall_mem_cons.mp h
    rw [List.flatMap_cons]
    cases hl with
    | present required hfile => exact ih hrest
    | absent => exact ih hrest
    | override p hv =>
      rw [overrides, inOverride, p.read_key, ih hrest]
      rfl

theorem exists_place_of_sound {layers : List Layer} (h : ∀ l ∈ layers, l.Sound) :
    ∀ x ∈ layers.flatMap inOverride, ∃ p : Place, x.1 = p.address ∧ p.takes x.2 = true := by
  intro x hx
  obtain ⟨l, hl, hx⟩ := List.mem_flatMap.mp hx
  cases h l hl with
  | present required hfile => cases hx
  | absent => cases hx
  | override p hv =>
    rw [inOverride, p.read_key, Option.map_some, Option.toList_some, List.mem_singleton] at hx
    subst hx
    exact ⟨p, rfl, hv⟩

/-- What the file of a layer sets a place to. -/
def fileValue (p : Place) (l : Layer) : Option Setting :=
  (allValues p l.inFile).getLast?

/-- What the override of a layer sets a place to. -/
def overrideValue (p : Place) (l : Layer) : Option Setting :=
  (allValues p l.inOverride).getLast?

end Layer

/-! ### Overrides that count -/

theorem mem_of_mem_lastGiven {as : List (Setting.Address × Setting)}
    {x : Setting.Address × Setting} (h : x ∈ lastGiven as) : x ∈ as := by
  induction as with
  | nil => exact h
  | cons y rest ih =>
    rw [lastGiven] at h
    split at h
    · exact List.mem_cons_of_mem _ (ih h)
    · rcases List.mem_cons.mp h with rfl | h
      · exact List.mem_cons_self ..
      · exact List.mem_cons_of_mem _ (ih h)

theorem allValues_eq_nil_iff {as : List (Setting.Address × Setting)}
    (h : ∀ x ∈ as, ∃ q : Place, x.1 = q.address) (p : Place) :
    allValues p as = [] ↔ ∀ x ∈ as, x.1 ≠ p.address := by
  rw [allValues, List.flatMap_eq_nil_iff]
  refine forall₂_congr fun x hx => ?_
  obtain ⟨a, v⟩ := x
  obtain ⟨q, rfl⟩ := h (a, v) hx
  show valuesAt p q.address v = [] ↔ q.address ≠ p.address
  rw [valuesAt_address, ne_eq, Place.address_inj]
  by_cases hqp : q = p <;> simp [hqp]

/-- Of the overrides of a place just the last counts. -/
theorem allValues_lastGiven {as : List (Setting.Address × Setting)}
    (h : ∀ x ∈ as, ∃ q : Place, x.1 = q.address) (p : Place) :
    allValues p (lastGiven as) = (allValues p as).getLast?.toList := by
  induction as with
  | nil => rfl
  | cons x rest ih =>
    obtain ⟨a, v⟩ := x
    obtain ⟨⟨q, rfl⟩, hrest⟩ := List.forall_mem_cons.mp h
    have hnil := allValues_eq_nil_iff hrest p
    rw [lastGiven, allValues_cons, valuesAt_address]
    by_cases hlater : ∃ y ∈ rest, y.1 = q.address
    · rw [if_pos (by simpa using hlater), ih hrest]
      by_cases hqp : q = p
      · -- a later override of the place stands in the rest
        obtain ⟨y, hy, hya⟩ := hlater
        have hvalues : allValues p rest ≠ [] := fun hempty => hnil.mp hempty y hy (hqp ▸ hya)
        obtain ⟨w, hw⟩ :=
          Option.ne_none_iff_exists'.mp (mt List.getLast?_eq_none_iff.mp hvalues)
        rw [List.getLast?_append, hw]
        rfl
      · rw [if_neg hqp, List.nil_append]
    · rw [if_neg (by simpa using hlater), allValues_cons, valuesAt_address, ih hrest]
      by_cases hqp : q = p
      · have hempty : allValues p rest = [] :=
          hnil.mpr fun y hy hya => hlater ⟨y, hy, hqp ▸ hya⟩
        rw [hempty, if_pos hqp]
        rfl
      · rw [if_neg hqp, List.nil_append, List.nil_append]

theorem getLast?_allValues_of_perm {as as' : List (Setting.Address × Setting)}
    (h : ∀ x ∈ as, ∃ q : Place, x.1 = q.address) (hperm : as'.Perm (lastGiven as)) (p : Place) :
    (allValues p as').getLast? = (allValues p as).getLast? := by
  have hvalues : (allValues p as').Perm (allValues p (lastGiven as)) := hperm.flatMap_right _
  rw [allValues_lastGiven h] at hvalues
  have hone : (allValues p as).getLast?.toList.length ≤ 1 := by
    cases (allValues p as).getLast? <;> simp
  rw [eq_of_perm hvalues hone]
  cases (allValues p as).getLast? <;> rfl

/-! ### The value that wins -/

theorem getLast?_allValues_flatMap (p : Place) (f : Layer → List (Setting.Address × Setting))
    (layers : List Layer) :
    (allValues p (layers.flatMap f)).getLast? =
      (layers.filterMap fun l => (allValues p (f l)).getLast?).getLast? := by
  induction layers with
  | nil => rfl
  | cons l rest ih =>
    rw [List.flatMap_cons, allValues_append, List.getLast?_append, ih, List.filterMap_cons]
    cases (allValues p (f l)).getLast? with
    | none => simp
    | some v =>
      rw [List.getLast?_cons]
      cases (List.filterMap _ rest).getLast? <;> rfl

/-- The value that wins at a place: the last override of it, or else the last file that sets it. -/
def winner (p : Place) (layers : List Layer) : Option Setting :=
  (layers.filterMap (Layer.overrideValue p)).getLast?.or
    (layers.filterMap (Layer.fileValue p)).getLast?

theorem winner_eq (p : Place) (layers : List Layer) :
    winner p layers =
      (allValues p (layers.flatMap Layer.inOverride)).getLast?.or
        (allValues p (layers.flatMap Layer.inFile)).getLast? := by
  rw [getLast?_allValues_flatMap, getLast?_allValues_flatMap]
  rfl

theorem fits_override {x : Setting.Address × Setting} {p : Place} (ha : x.1 = p.address)
    (hv : p.takes x.2 = true) : Fits x.1 x.2 := by
  rw [ha]
  intro q hn hk
  rw [Place.foldName_part] at hn
  rw [Place.foldName_name] at hk
  exact ⟨rfl, Place.eq_of_names hn hk ▸ hv⟩

theorem winner_takes {layers : List Layer} (h : ∀ l ∈ layers, l.Sound) {p : Place} {v : Setting}
    (hv : v ∈ winner p layers) : p.takes v = true := by
  obtain ⟨fs, -, hdefinite, hflat⟩ := Layer.files_of_sound h
  have hfiles : ∀ x ∈ layers.flatMap Layer.inFile, Fits x.1 x.2 := by
    rw [← hflat]
    intro x hx
    obtain ⟨es, hes, hx⟩ := List.mem_flatMap.mp hx
    exact (hdefinite es hes).fits x hx
  have hoverrides : ∀ x ∈ layers.flatMap Layer.inOverride, Fits x.1 x.2 := by
    intro x hx
    obtain ⟨p, ha, hv⟩ := Layer.exists_place_of_sound h x hx
    exact fits_override ha hv
  rw [winner_eq, Option.mem_def, Option.or_eq_some_iff] at hv
  rcases hv with hv | ⟨-, hv⟩
  · exact takes_of_mem_allValues hoverrides (List.mem_of_getLast? hv)
  · exact takes_of_mem_allValues hfiles (List.mem_of_getLast? hv)

/-- The value at a place once all layers are in, in whatever order entries and overrides are taken:
the one that wins, or else the standard one. -/
theorem valueIn_of_sound {layers : List Layer} (h : ∀ l ∈ layers, l.Sound)
    {fs : List (List (String × Setting))} (hfs : Layer.files layers = .ok fs) {root : Setting}
    (hputs : Puts fs builtIn root) {as : List (Setting.Address × Setting)}
    (horder : as.Perm (lastGiven (layers.flatMap Layer.inOverride))) {p : Place}
    {standard : Setting} (hp : p.valueIn builtIn = some standard) :
    p.valueIn (assignAll as root) = some ((winner p layers).getD standard) := by
  obtain ⟨fs', hfs', hdefinite, hflat⟩ := Layer.files_of_sound h
  rw [hfs] at hfs'
  cases hfs'
  have hplaces := Layer.exists_place_of_sound h
  have hfits : ∀ x ∈ as, Fits x.1 x.2 := by
    intro x hx
    obtain ⟨q, ha, hv⟩ := hplaces x (mem_of_mem_lastGiven (horder.mem_iff.mp hx))
    exact fits_override ha hv
  have haddress : ∀ x ∈ layers.flatMap Layer.inOverride, ∃ q : Place, x.1 = q.address := by
    intro x hx
    obtain ⟨q, ha, -⟩ := hplaces x hx
    exact ⟨q, ha⟩
  rw [valueIn_assignAll hfits, getLast?_allValues_of_perm haddress horder,
    valueIn_of_puts hputs hdefinite, hflat, hp, ← Option.or_assoc, ← winner_eq]
  cases winner p layers <;> rfl

/-! ### Reading the settings off -/

/-- A value taken as the way a format is found. -/
def toInputFormat? (v : Setting) : Option InputFormat :=
  (v.toName? ["auto", "json", "yaml"]).map fun name =>
    match Format.ofName? name with
    | some format => .fixed format
    | none => .auto

/-- A value taken as a format. -/
def toOutputFormat? (v : Setting) : Option Format :=
  (v.toName? ["json", "yaml"]).bind Format.ofName?

theorem find_of_valueIn {p : Place} {root v : Setting} (place : Nat) (h : p.valueIn root = some v) :
    ∃ s, root.entries.lookup p.part = some s ∧
      find p.part p.name place s = .ok (some (p.part ++ "." ++ p.name, v)) := by
  obtain ⟨s, hs, hv⟩ := Option.bind_eq_some_iff.mp h
  refine ⟨s, hs, ?_⟩
  cases s with
  | table es =>
    rw [find, show es.lookup p.name = some v from hv]
    rfl
  | _ => cases hv

/-- The settings of a tree that has a value at each place. -/
theorem ofSetting_of_values {root vi vo vp vm : Setting} {i : InputFormat} {o : Format} {b : Bool}
    {m : Nat} (hi : Place.inputFormat.valueIn root = some vi) (ci : toInputFormat? vi = some i)
    (ho : Place.outputFormat.valueIn root = some vo) (co : toOutputFormat? vo = some o)
    (hp : Place.pretty.valueIn root = some vp) (cp : vp.toBool? = some b)
    (hm : Place.maxReported.valueIn root = some vm) (cm : vm.toCount? = some m) :
    ofSetting root = .ok ⟨i, o, b, m⟩ := by
  obtain ⟨si, hsi, hfi⟩ := find_of_valueIn 0 hi
  obtain ⟨so, hso, hfo⟩ := find_of_valueIn 0 ho
  obtain ⟨sp, hsp, hfp⟩ := find_of_valueIn 1 hp
  obtain ⟨sm, hsm, hfm⟩ := find_of_valueIn 0 hm
  have heq : sp = so := Option.some.inj (hsp.symm.trans hso)
  subst heq
  obtain ⟨ni, hni, hi'⟩ := Option.map_eq_some_iff.mp ci
  obtain ⟨no, hno, ho'⟩ := Option.bind_eq_some_iff.mp co
  have hin : inputOf si = .ok i := by
    simp only [Place.part, Place.name] at hfi
    simp only [inputOf, hfi, toFormat, hni, required, bind, Except.bind, pure, Except.pure]
    rw [← hi']
    cases Format.ofName? ni <;> rfl
  have hout : outputOf sp = .ok (o, b) := by
    simp only [Place.part, Place.name] at hfo hfp
    simp only [outputOf, hfo, hfp, toFormat, toValue, hno, cp, required, bind, Except.bind, pure,
      Except.pure, Option.bind_some, ho']
  have hcheck : checkOf sm = .ok m := by
    simp only [Place.part, Place.name] at hfm
    simp only [checkOf, hfm, toValue, cm, required, bind, Except.bind]
  simp only [Place.part] at hsi hso hsm
  simp only [ofSetting, hsi, hso, hsm, required, hin, hout, hcheck, bind, Except.bind, pure,
    Except.pure]

/-- A value is taken as itself, and the standard one stands in where there is none. -/
theorem convert_getD {α : Type} (convert : Setting → Option α) {standard : α} {b : Setting}
    (hb : convert b = some standard) {w : Option Setting} (hw : ∀ v ∈ w, (convert v).isSome) :
    convert (w.getD b) = some ((w.bind convert).getD standard) := by
  cases w with
  | none => simpa using hb
  | some v =>
    obtain ⟨a, ha⟩ := Option.isSome_iff_exists.mp (hw v rfl)
    simp [ha]

theorem toInputFormat_of_takes {v : Setting} (h : Place.inputFormat.takes v = true) :
    (toInputFormat? v).isSome := by
  cases v with
  | text s => rwa [toInputFormat?, Option.isSome_map]
  | _ => cases h

theorem toOutputFormat_of_takes {v : Setting} (h : Place.outputFormat.takes v = true) :
    (toOutputFormat? v).isSome := by
  cases v with
  | text s =>
    obtain ⟨name, hname⟩ := Option.isSome_iff_exists.mp h
    have hmem : name = "json" ∨ name = "yaml" := by
      have hfind := hname
      rw [Setting.toName?] at hfind
      simpa using List.mem_of_find?_eq_some hfind
    rw [toOutputFormat?, hname, Option.bind_some]
    rcases hmem with rfl | rfl <;> rfl
  | _ => cases h

/-- The settings that layers decide on: each of the four is the last override of it if there is one,
or else that of the last file that is there and sets it, or else the standard one. -/
def decided (layers : List Layer) : Settings where
  inputFormat := ((winner .inputFormat layers).bind toInputFormat?).getD .auto
  outputFormat := ((winner .outputFormat layers).bind toOutputFormat?).getD .json
  pretty := ((winner .pretty layers).bind Setting.toBool?).getD true
  maxReported := ((winner .maxReported layers).bind Setting.toCount?).getD 0

theorem ofSetting_of_sound {layers : List Layer} (h : ∀ l ∈ layers, l.Sound) {root : Setting}
    (hvalues : ∀ (p : Place) (standard : Setting), p.valueIn builtIn = some standard →
      p.valueIn root = some ((winner p layers).getD standard)) :
    ofSetting root = .ok (decided layers) :=
  ofSetting_of_values
    (hvalues .inputFormat _ rfl)
    (convert_getD toInputFormat? rfl fun _ hv => toInputFormat_of_takes (winner_takes h hv))
    (hvalues .outputFormat _ rfl)
    (convert_getD toOutputFormat? rfl fun _ hv => toOutputFormat_of_takes (winner_takes h hv))
    (hvalues .pretty _ rfl) (convert_getD Setting.toBool? rfl fun _ => winner_takes h)
    (hvalues .maxReported _ rfl) (convert_getD Setting.toCount? rfl fun _ => winner_takes h)

theorem eq_decided_of_outcome {layers : List Layer} (h : ∀ l ∈ layers, l.Sound)
    {r : Except SettingsError Settings} (hr : Outcome layers r) : r = .ok (decided layers) := by
  obtain ⟨fs, hfs, -⟩ := Layer.files_of_sound h
  have hoverrides := Layer.overrides_of_sound h
  cases hr with
  | noOverrides herror =>
    rw [hoverrides] at herror
    cases herror
  | noFiles _ herror =>
    rw [hfs] at herror
    cases herror
  | made hoverrides' hfs' hputs horder =>
    rw [hoverrides] at hoverrides'
    cases hoverrides'
    exact ofSetting_of_sound h fun p standard => valueIn_of_sound h hfs' hputs horder

/-- A file that sets two of the places, one by an address, beside a section of its own. -/
def sampleText : String :=
  "\"output.pretty\" = false\n[OUTPUT]\nformat = \"json\"\n[colors]\nerror = \"red\"\n"

/-- Two overrides around that file and one that is not there. -/
def sampleLayers : List Layer :=
  [.override "output.format" (.text "YAML"), .file true (some sampleText), .file false none,
    .override "check.max_reported" (.int 5)]

/-- Entries that fit if names are taken to the letter: the sections that are there are tables, and
what they have under the name of a place is a valid value of it. -/
def FitsByName (es : List (String × Setting)) : Prop :=
  ∀ e ∈ es, ∀ p : Place, e.1 = p.part →
    isTable e.2 = true ∧ ∀ f ∈ e.2.entries, f.1 = p.name → p.takes f.2 = true

instance (es : List (String × Setting)) : Decidable (FitsByName es) :=
  inferInstanceAs (Decidable (∀ e ∈ es, ∀ p : Place, e.1 = p.part →
    isTable e.2 = true ∧ ∀ f ∈ e.2.entries, f.1 = p.name → p.takes f.2 = true))

/-- A file that fits if its names are taken to the letter, and yet makes no settings. -/
def RefusedForNames (text : String) : Prop :=
  (∃ es ∈ Toml.read text, FitsByName es) ∧
    ofLayers [.file true (some text)] = .error .badSection

theorem refusedForNames_iff (text : String) :
    RefusedForNames text ↔ (∃ es ∈ Toml.read text, FitsByName es) ∧
      errorOf (ofLayers [.file true (some text)]) = some .badSection := by
  rw [errorOf_eq_some_iff, RefusedForNames]

instance (text : String) : Decidable (RefusedForNames text) :=
  decidable_of_iff' _ (refusedForNames_iff text)

/-- A file with a section twice, once in another case. -/
def doubledText : String :=
  "[output]\nformat = \"yaml\"\n[OUTPUT]\nformat = \"json\"\n"

/-- The entries of a file may be permuted. -/
theorem outcome_of_perm {text : String} {es es' : List (String × Setting)}
    (hread : Toml.read text = some es) (hperm : es.Perm es') :
    Outcome [.file true (some text)] (ofSetting (builtIn.layer es')) := by
  have hfiles : Layer.files [.file true (some text)] = .ok [es] := by
    rw [Layer.files, hread]
    rfl
  have hmade : Outcome [.file true (some text)] (ofSetting (assignAll [] (builtIn.layer es'))) :=
    .made rfl hfiles (.cons (.of_perm hperm) (.nil _)) (.refl [])
  exact hmade

theorem outcomes_doubledText :
    Outcome [.file true (some doubledText)] (.ok ⟨.auto, .json, true, 0⟩) ∧
      Outcome [.file true (some doubledText)] (.ok ⟨.auto, .yaml, true, 0⟩) := by
  have h : ∃ es ∈ Toml.read doubledText,
      (ofSetting (builtIn.layer es)).toOption = some ⟨.auto, .json, true, 0⟩ ∧
        (ofSetting (builtIn.layer es.reverse)).toOption = some ⟨.auto, .yaml, true, 0⟩ := by
    decide +kernel
  obtain ⟨es, hread, hjson, hyaml⟩ := h
  rw [Option.mem_def] at hread
  rw [← eq_ok_of_toOption hjson, ← eq_ok_of_toOption hyaml]
  exact ⟨outcome_of_perm hread (.refl es), outcome_of_perm hread es.reverse_perm.symm⟩

end OverDelimited.Settings
