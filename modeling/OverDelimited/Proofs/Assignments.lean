import OverDelimited.Settings

/-!
# Assignments to settings

The four settings are kept at fixed places of a tree.  Every entry of a file and every override is
an assignment to an address.  What one assignment does to the value at a place is said once
(`valueIn_assign`); the value after a row of them is the last that the row puts there
(`valueIn_assignAll`).  The entries of a file may be taken in any order: if they set no place twice,
each order puts the same value at each place (`allValues_rearranged`).
-/

namespace OverDelimited.Settings

open Setting (foldName upsert put putAll assign assignAll assignmentsOf Rearranged)

/-! ### Places -/

/-- The places that settings are read from. -/
inductive Place where
  | inputFormat
  | outputFormat
  | pretty
  | maxReported
deriving DecidableEq, Repr

namespace Place

/-- The section of a place. -/
def part : Place → String
  | inputFormat => "input"
  | outputFormat | pretty => "output"
  | maxReported => "check"

/-- The name of a place in its section. -/
def name : Place → String
  | inputFormat | outputFormat => "format"
  | pretty => "pretty"
  | maxReported => "max_reported"

theorem eq_of_names {p q : Place} (hpart : p.part = q.part) (hname : p.name = q.name) : p = q := by
  revert hpart hname
  cases p <;> cases q <;> decide

/-- What a tree holds at a place. -/
def valueIn (p : Place) (root : Setting) : Option Setting :=
  (root.entries.lookup p.part).bind fun s => s.entries.lookup p.name

/-- Whether a value is valid at a place: a format by its name, and whatever a switch or a count can
be taken from. -/
def takes : Place → Setting → Bool
  | inputFormat, .text s => ((Setting.text s).toName? ["auto", "json", "yaml"]).isSome
  | outputFormat, .text s => ((Setting.text s).toName? ["json", "yaml"]).isSome
  | pretty, v => v.toBool?.isSome
  | maxReported, v => v.toCount?.isSome
  | _, _ => false

/-- The address of a place. -/
def address (p : Place) : Setting.Address :=
  [.name p.part, .name p.name]

theorem address_inj {p q : Place} : p.address = q.address ↔ p = q := by
  constructor
  · intro h
    simp only [address, List.cons.injEq, Setting.Step.name.injEq] at h
    exact eq_of_names h.1 h.2.1
  · intro h
    rw [h]

/-- The key that a place is overridden by. -/
def key (p : Place) : String :=
  p.part ++ "." ++ p.name

theorem read_key (p : Place) : Setting.Address.read? p.key = some p.address := by
  cases p <;> decide +kernel

theorem foldName_part (p : Place) : foldName p.part = p.part := by
  cases p <;> decide

theorem foldName_name (p : Place) : foldName p.name = p.name := by
  cases p <;> decide

theorem not_table_of_takes {p : Place} {v : Setting} (h : p.takes v = true) :
    ∀ es, v ≠ .table es := by
  rintro es rfl
  cases p <;> cases h

/-- What holds of all places can be checked. -/
instance {P : Place → Prop} [DecidablePred P] : Decidable (∀ p, P p) :=
  decidable_of_iff (P inputFormat ∧ P outputFormat ∧ P pretty ∧ P maxReported)
    ⟨fun ⟨hi, ho, hp, hm⟩ p => by cases p <;> assumption,
      fun h => ⟨h inputFormat, h outputFormat, h pretty, h maxReported⟩⟩

end Place

/-! ### One assignment -/

theorem entries_put_of_ne {n wanted : String} (h : wanted ≠ foldName n) (v root : Setting) :
    (put n v root).entries.lookup wanted = root.entries.lookup wanted := by
  cases v <;> exact Setting.lookup_upsert_of_ne h _ _

theorem entries_put_leaf {v : Setting} (h : ∀ es, v ≠ .table es) (n : String) (root : Setting) :
    (put n v root).entries.lookup (foldName n) = some v := by
  cases v with
  | table es => exact absurd rfl (h es)
  | _ => exact Setting.lookup_upsert_self _ _ _

/-- The values under a name among the entries of a layer. -/
def named (wanted : String) (es : List (String × Setting)) : List Setting :=
  es.filterMap fun e => if foldName e.1 = wanted then some e.2 else none

theorem named_cons (wanted : String) (e : String × Setting) (es : List (String × Setting)) :
    named wanted (e :: es) = (if foldName e.1 = wanted then [e.2] else []) ++ named wanted es := by
  by_cases h : foldName e.1 = wanted <;> simp [named, h]

theorem lookup_putAll (wanted : String) (es : List (String × Setting)) (root : Setting)
    (h : ∀ v ∈ named wanted es, ∀ sub, v ≠ .table sub) :
    (putAll es root).entries.lookup wanted =
      (named wanted es).getLast?.or (root.entries.lookup wanted) := by
  induction es generalizing root with
  | nil => rfl
  | cons e rest ih =>
    obtain ⟨n, v⟩ := e
    rw [named_cons] at h ⊢
    rw [putAll, ih _ fun v hv => h v (List.mem_append_right _ hv), List.getLast?_append,
      Option.or_assoc]
    by_cases hn : foldName n = wanted
    · rw [if_pos hn] at h ⊢
      have hv := entries_put_leaf (h v (List.mem_append_left _ (List.mem_singleton_self v))) n root
      rw [hn] at hv
      rw [hv]
      rfl
    · rw [if_neg hn, entries_put_of_ne (Ne.symm hn)]
      rfl

/-- The values that assigning a value to an address puts at a place. -/
def valuesAt (p : Place) : Setting.Address → Setting → List Setting
  | [.name n], v => if foldName n = p.part then named p.name v.entries else []
  | [.name n, .name k], v => if foldName n = p.part ∧ foldName k = p.name then [v] else []
  | _, _ => []

/-- Whether a setting is a table. -/
def isTable : Setting → Bool
  | .table _ => true
  | _ => false

theorem eq_table_of_isTable {v : Setting} (h : isTable v = true) : v = .table v.entries := by
  cases v with
  | table es => rfl
  | _ => cases h

/-- An assignment that keeps the sections tables and the values at the places valid: it neither
takes a section for a list nor goes on below a place.  What else it sets is free. -/
def Fits : Setting.Address → Setting → Prop
  | [.name n], v => ∀ p : Place, foldName n = p.part →
    isTable v = true ∧ ∀ w ∈ named p.name v.entries, p.takes w = true
  | .name n :: .name k :: rest, v => ∀ p : Place, foldName n = p.part → foldName k = p.name →
    rest = [] ∧ p.takes v = true
  | .name n :: .index _ :: _, _ => ∀ p : Place, foldName n ≠ p.part
  | _, _ => False

instance (a : Setting.Address) (v : Setting) : Decidable (Fits a v) :=
  match a with
  | [.name n] => inferInstanceAs (Decidable (∀ p : Place, foldName n = p.part →
      isTable v = true ∧ ∀ w ∈ named p.name v.entries, p.takes w = true))
  | .name n :: .name k :: rest => inferInstanceAs (Decidable (∀ p : Place, foldName n = p.part →
      foldName k = p.name → rest = [] ∧ p.takes v = true))
  | .name n :: .index _ :: _ => inferInstanceAs (Decidable (∀ p : Place, foldName n ≠ p.part))
  | [] => inferInstanceAs (Decidable False)
  | .index _ :: _ => inferInstanceAs (Decidable False)

theorem valuesAt_eq_nil {p : Place} {n k : String}
    (h : ¬(foldName n = p.part ∧ foldName k = p.name)) (rest : Setting.Address) (v : Setting) :
    valuesAt p (.name n :: .name k :: rest) v = [] := by
  cases rest with
  | nil => exact if_neg h
  | cons step rest => rfl

theorem valuesAt_address (p q : Place) (v : Setting) :
    valuesAt p q.address v = if q = p then [v] else [] := by
  rw [Place.address, valuesAt, Place.foldName_part, Place.foldName_name]
  have heq : q.part = p.part ∧ q.name = p.name ↔ q = p :=
    ⟨fun h => Place.eq_of_names h.1 h.2, fun h => h ▸ ⟨rfl, rfl⟩⟩
  simp only [heq]

/-- An address changes only what stands under its first name. -/
theorem lookup_assign_of_ne {n wanted : String} (h : wanted ≠ foldName n) (v : Setting)
    (rest : Setting.Address) (root : Setting) :
    (assign v (.name n :: rest) root).entries.lookup wanted = root.entries.lookup wanted := by
  cases rest with
  | nil => exact entries_put_of_ne h v root
  | cons step rest =>
    rw [assign]
    · exact Setting.lookup_upsert_of_ne h _ _
    · simp

theorem valueIn_of_lookup {p : Place} {root root' : Setting}
    (h : root'.entries.lookup p.part = root.entries.lookup p.part) :
    p.valueIn root' = p.valueIn root := by
  rw [Place.valueIn, h, Place.valueIn]

/-- The section of a place as it stands once something is put in it. -/
theorem valueIn_upsert_self {p : Place} (change : Option Setting → Setting) (root : Setting) :
    p.valueIn (.table (upsert p.part change root.entries)) =
      (change (root.entries.lookup p.part)).entries.lookup p.name := by
  rw [Place.valueIn, Setting.entries, Setting.lookup_upsert_self]
  rfl

theorem valueIn_eq_getD (p : Place) (root empty : Setting) (h : empty.entries = []) :
    p.valueIn root = ((root.entries.lookup p.part).getD empty).entries.lookup p.name := by
  rw [Place.valueIn]
  cases root.entries.lookup p.part with
  | none => simp [h]
  | some s => rfl

/-- A section with something put in it by a longer address. -/
theorem valueIn_assign_cons (p : Place) (v : Setting) (n : String) (step : Setting.Step)
    (rest : Setting.Address) (root : Setting) :
    p.valueIn (assign v (.name n :: step :: rest) root) =
      if foldName n = p.part then
        (assign v (step :: rest) ((root.entries.lookup p.part).getD .nil)).entries.lookup p.name
      else p.valueIn root := by
  split
  · next hn =>
    rw [assign, hn, valueIn_upsert_self]
    simp
  · next hn => exact valueIn_of_lookup (lookup_assign_of_ne (Ne.symm hn) v _ root)

/-- One assignment: a place has the last value that is put there, or keeps the one it had. -/
theorem valueIn_assign {a : Setting.Address} {v : Setting} (h : Fits a v) (p : Place)
    (root : Setting) :
    p.valueIn (assign v a root) = (valuesAt p a v).getLast?.or (p.valueIn root) := by
  match a, h with
  | [.name n], h =>
    simp only [valuesAt, assign]
    by_cases hn : foldName n = p.part
    · obtain ⟨htable, hvalues⟩ := h p hn
      rw [eq_table_of_isTable htable, if_pos hn, put, hn, valueIn_upsert_self,
        lookup_putAll _ _ _ fun w hw => Place.not_table_of_takes (hvalues w hw),
        ← valueIn_eq_getD p root (.table []) rfl]
      rfl
    · rw [if_neg hn]
      exact valueIn_of_lookup (entries_put_of_ne (Ne.symm hn) v root)
  | .name n :: .name k :: rest, h =>
    rw [valueIn_assign_cons]
    by_cases hn : foldName n = p.part
    · rw [if_pos hn]
      by_cases hk : foldName k = p.name
      · obtain ⟨rfl, hv⟩ := h p hn hk
        have hlookup := entries_put_leaf (Place.not_table_of_takes hv) k
          ((root.entries.lookup p.part).getD .nil)
        rw [hk] at hlookup
        simp only [valuesAt, assign, hn, hk, and_self, if_true, hlookup]
        rfl
      · rw [lookup_assign_of_ne (Ne.symm hk), valuesAt_eq_nil (fun h => hk h.2),
          ← valueIn_eq_getD p root .nil rfl]
        rfl
    · rw [if_neg hn, valuesAt_eq_nil (fun h => hn h.1)]
      rfl
  | .name n :: .index i :: rest, h =>
    rw [valueIn_assign_cons, if_neg (h p)]
    rfl

theorem Fits.takes {a : Setting.Address} {v w : Setting} (h : Fits a v) {p : Place}
    (hw : w ∈ valuesAt p a v) : p.takes w = true := by
  match a, h with
  | [.name n], h =>
    by_cases hn : foldName n = p.part
    · rw [valuesAt, if_pos hn] at hw
      exact (h p hn).2 w hw
    · rw [valuesAt, if_neg hn] at hw
      cases hw
  | .name n :: .name k :: rest, h =>
    by_cases hplace : foldName n = p.part ∧ foldName k = p.name
    · obtain ⟨rfl, hv⟩ := h p hplace.1 hplace.2
      rw [valuesAt, if_pos hplace] at hw
      rwa [List.mem_singleton.mp hw]
    · rw [valuesAt_eq_nil hplace] at hw
      cases hw
  | .name n :: .index i :: rest, h => cases hw

/-! ### Rows of assignments -/

/-- The values that a row of assignments puts at a place. -/
def allValues (p : Place) (as : List (Setting.Address × Setting)) : List Setting :=
  as.flatMap fun (a, v) => valuesAt p a v

theorem allValues_cons (p : Place) (a : Setting.Address) (v : Setting)
    (as : List (Setting.Address × Setting)) :
    allValues p ((a, v) :: as) = valuesAt p a v ++ allValues p as :=
  List.flatMap_cons

theorem allValues_append (p : Place) (as bs : List (Setting.Address × Setting)) :
    allValues p (as ++ bs) = allValues p as ++ allValues p bs :=
  List.flatMap_append

theorem takes_of_mem_allValues {as : List (Setting.Address × Setting)}
    (h : ∀ x ∈ as, Fits x.1 x.2) {p : Place} {v : Setting} (hv : v ∈ allValues p as) :
    p.takes v = true := by
  obtain ⟨x, hx, hmem⟩ := List.mem_flatMap.mp hv
  exact (h x hx).takes hmem

theorem valueIn_assignAll {as : List (Setting.Address × Setting)}
    (h : ∀ x ∈ as, Fits x.1 x.2) (p : Place) (root : Setting) :
    p.valueIn (assignAll as root) = (allValues p as).getLast?.or (p.valueIn root) := by
  induction as generalizing root with
  | nil => rfl
  | cons x as ih =>
    obtain ⟨a, v⟩ := x
    obtain ⟨hx, has⟩ := List.forall_mem_cons.mp h
    rw [assignAll, List.foldl_cons, ← assignAll, ih has, valueIn_assign hx, allValues_cons,
      List.getLast?_append, Option.or_assoc]

/-! ### Order -/

theorem named_rearranged {es es' : List (String × Setting)} (hr : Rearranged es es')
    {wanted : String} (h : ∀ v ∈ named wanted es, ∀ sub, v ≠ .table sub) :
    (named wanted es').Perm (named wanted es) := by
  induction hr with
  | nil => exact .refl _
  | cons e _ ih =>
    rw [named_cons] at h ⊢
    rw [named_cons]
    exact (ih fun v hv => h v (List.mem_append_right _ hv)).append_left _
  | inside name _ es =>
    rw [named_cons] at h ⊢
    rw [named_cons]
    by_cases hn : foldName name = wanted
    · rw [if_pos hn] at h
      exact absurd rfl (h _ (List.mem_append_left _ (List.mem_singleton_self _)) _)
    · rw [if_neg hn, if_neg hn]
  | swap e f es =>
    simp only [named_cons]
    exact List.perm_append_comm_assoc ..
  | trans _ _ ih ih' =>
    have hfirst := ih h
    exact (ih' fun v hv => h v (hfirst.mem_iff.mp hv)).trans hfirst

theorem Fits.rearranged {a : Setting.Address} {sub sub' : List (String × Setting)}
    (h : Fits a (.table sub)) (hr : Rearranged sub sub') :
    Fits a (.table sub') ∧
      ∀ p, (valuesAt p a (.table sub')).Perm (valuesAt p a (.table sub)) := by
  match a, h with
  | [.name n], h =>
    have hperm : ∀ p : Place, foldName n = p.part →
        (named p.name sub').Perm (named p.name sub) := by
      intro p hn
      exact named_rearranged hr fun w hw => Place.not_table_of_takes ((h p hn).2 w hw)
    refine ⟨fun p hn => ⟨rfl, fun w hw => (h p hn).2 w ((hperm p hn).mem_iff.mp hw)⟩, fun p => ?_⟩
    by_cases hn : foldName n = p.part
    · rw [valuesAt, if_pos hn, valuesAt, if_pos hn]
      exact hperm p hn
    · rw [valuesAt, if_neg hn, valuesAt, if_neg hn]
  | .name n :: .name k :: rest, h =>
    -- a table is no valid value, so the address is that of no place
    have hno : ∀ p : Place, ¬(foldName n = p.part ∧ foldName k = p.name) := by
      intro p hplace
      exact Place.not_table_of_takes (h p hplace.1 hplace.2).2 sub rfl
    refine ⟨fun p hn hk => absurd ⟨hn, hk⟩ (hno p), fun p => ?_⟩
    rw [valuesAt_eq_nil (hno p), valuesAt_eq_nil (hno p)]
  | .name n :: .index i :: rest, h => exact ⟨h, fun p => .refl _⟩

theorem allValues_rearranged {es es' : List (String × Setting)} (hr : Rearranged es es')
    (h : ∀ x ∈ assignmentsOf es, Fits x.1 x.2) :
    (∀ x ∈ assignmentsOf es', Fits x.1 x.2) ∧
      ∀ p, (allValues p (assignmentsOf es')).Perm (allValues p (assignmentsOf es)) := by
  induction hr with
  | nil => exact ⟨h, fun p => .refl _⟩
  | cons e _ ih =>
    obtain ⟨he, hes⟩ := List.forall_mem_cons.mp h
    obtain ⟨hfits, hperm⟩ := ih hes
    exact ⟨List.forall_mem_cons.mpr ⟨he, hfits⟩, fun p => (hperm p).append_left _⟩
  | inside name hsub es =>
    obtain ⟨he, hes⟩ := List.forall_mem_cons.mp h
    obtain ⟨hfits, hperm⟩ := he.rearranged hsub
    exact ⟨List.forall_mem_cons.mpr ⟨hfits, hes⟩, fun p => (hperm p).append_right _⟩
  | swap e f es =>
    obtain ⟨he, hrest⟩ := List.forall_mem_cons.mp h
    obtain ⟨hf, hes⟩ := List.forall_mem_cons.mp hrest
    refine ⟨List.forall_mem_cons.mpr ⟨hf, List.forall_mem_cons.mpr ⟨he, hes⟩⟩, fun p => ?_⟩
    exact List.perm_append_comm_assoc ..
  | trans _ _ ih ih' =>
    obtain ⟨hfits, hperm⟩ := ih h
    obtain ⟨hfits', hperm'⟩ := ih' hfits
    exact ⟨hfits', fun p => (hperm' p).trans (hperm p)⟩

theorem eq_of_perm {α : Type} {l l' : List α} (h : l.Perm l') (hone : l'.length ≤ 1) : l = l' := by
  match l', hone with
  | [], _ => exact h.eq_nil
  | [a], _ => exact List.perm_singleton.mp h

/-- Entries that fit and set no place twice. -/
structure Definite (es : List (String × Setting)) : Prop where
  fits : ∀ x ∈ assignmentsOf es, Fits x.1 x.2
  once : ∀ p : Place, (allValues p (assignmentsOf es)).length ≤ 1

instance (es : List (String × Setting)) : Decidable (Definite es) :=
  decidable_of_iff ((∀ x ∈ assignmentsOf es, Fits x.1 x.2) ∧
    ∀ p : Place, (allValues p (assignmentsOf es)).length ≤ 1)
    ⟨fun ⟨hfits, honce⟩ => ⟨hfits, honce⟩, fun h => ⟨h.fits, h.once⟩⟩

/-- Files put one after another, in whatever order their entries are taken. -/
theorem valueIn_of_puts {files : List (List (String × Setting))} {root root' : Setting}
    (hputs : Puts files root root') (h : ∀ es ∈ files, Definite es) (p : Place) :
    p.valueIn root' = (allValues p (files.flatMap assignmentsOf)).getLast?.or (p.valueIn root) := by
  induction hputs with
  | nil root => rfl
  | cons hentries _ ih =>
    obtain ⟨hes, hfiles⟩ := List.forall_mem_cons.mp h
    obtain ⟨hfits, hperm⟩ := allValues_rearranged hentries hes.fits
    rw [ih hfiles, Setting.layer, valueIn_assignAll hfits, eq_of_perm (hperm p) (hes.once p),
      List.flatMap_cons, allValues_append, List.getLast?_append, Option.or_assoc]

end OverDelimited.Settings
