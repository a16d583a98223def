/-!
# Trees of settings

What configuration is made of before it is known what the settings mean: leaves, lists and tables.
Names are matched without regard to case, so a table holds its names folded.  A layer of settings is
put over another name by name: tables are merged all the way down and anything else replaces what
was there (`Setting.put`).  The entries of a table have no order of their own, so where several of a
layer set one name it is open which of them is put last (`Setting.Rearranged`).
-/

namespace OverDelimited

/-- A tree of settings. -/
inductive Setting where
  /-- A setting without a value. -/
  | nil
  | bool (value : Bool)
  | int (value : Int)
  | float (value : Float)
  | text (value : String)
  | list (items : List Setting)
  | table (entries : List (String × Setting))

namespace Setting

/-! ### Entries by name -/

/-- Replaces the value under a name, or adds the name at the end. -/
def upsert {α : Type} (name : String) (change : Option α → α) :
    List (String × α) → List (String × α)
  | [] => [(name, change none)]
  | (other, value) :: rest =>
    if other = name then (other, change (some value)) :: rest
    else (other, value) :: upsert name change rest

theorem lookup_upsert_self {α : Type} (name : String) (change : Option α → α)
    (entries : List (String × α)) :
    (upsert name change entries).lookup name = some (change (entries.lookup name)) := by
  induction entries with
  | nil => simp [upsert]
  | cons entry rest ih =>
    obtain ⟨other, value⟩ := entry
    by_cases h : other = name
    · subst h
      simp [upsert]
    · have h' : (name == other) = false := by simp [Ne.symm h]
      simp [upsert, List.lookup_cons, h, h', ih]

theorem lookup_upsert_of_ne {α : Type} {name wanted : String} (hne : wanted ≠ name)
    (change : Option α → α) (entries : List (String × α)) :
    (upsert name change entries).lookup wanted = entries.lookup wanted := by
  have hne' : (wanted == name) = false := by simp [hne]
  induction entries with
  | nil => simp [upsert, List.lookup_cons, hne']
  | cons entry rest ih =>
    obtain ⟨other, value⟩ := entry
    by_cases h : other = name
    · subst h
      simp [upsert, List.lookup_cons, hne']
    · by_cases hw : wanted = other
      · simp [upsert, h, hw]
      · have h' : (wanted == other) = false := by simp [hw]
        simp [upsert, List.lookup_cons, h, h', ih]

/-! ### Names -/

/-- The small form of a letter of the alphabet.  The Kelvin sign is a capital k. -/
def foldLetter (c : Char) : Char :=
  if c = '\u212a' then 'k' else c.toLower

/-- A name without its case. -/
def foldName (name : String) : String :=
  String.ofList (name.toList.map foldLetter)

/-! ### Putting settings over settings -/

/-- The entries of a table; anything else has none. -/
def entries : Setting → List (String × Setting)
  | table entries => entries
  | _ => []

/-- The items of a list; anything else has none. -/
def items : Setting → List Setting
  | list items => items
  | _ => []

mutual
/-- Puts a value under a name.  A table is merged into what is under the name, and anything else
takes its place.  What is no table becomes one. -/
def put (name : String) : Setting → Setting → Setting
  | table layer, root =>
    table (upsert (foldName name) (fun old => putAll layer (old.getD (table []))) root.entries)
  | value, root => table (upsert (foldName name) (fun _ => value) root.entries)

/-- Puts the entries of a layer one after another. -/
def putAll : List (String × Setting) → Setting → Setting
  | [], root => root
  | (name, value) :: rest, root => putAll rest (put name value root)
end

/-! ### Order -/

/-- The same entries in another order, at any depth of tables.  A list is put as a whole, so tables
in it stay as they are. -/
inductive Rearranged : List (String × Setting) → List (String × Setting) → Prop
  | nil : Rearranged [] []
  | cons (entry : String × Setting) {es es' : List (String × Setting)} (h : Rearranged es es') :
    Rearranged (entry :: es) (entry :: es')
  | inside (name : String) {sub sub' : List (String × Setting)} (h : Rearranged sub sub')
    (es : List (String × Setting)) : Rearranged ((name, table sub) :: es) ((name, table sub') :: es)
  | swap (e f : String × Setting) (es : List (String × Setting)) :
    Rearranged (e :: f :: es) (f :: e :: es)
  | trans {es es' es'' : List (String × Setting)} (h : Rearranged es es')
    (h' : Rearranged es' es'') : Rearranged es es''

/-- Entries may be permuted. -/
theorem Rearranged.of_perm {es es' : List (String × Setting)} (h : es.Perm es') :
    Rearranged es es' := by
  induction h with
  | nil => exact nil
  | cons e _ ih => exact cons e ih
  | swap e f es => exact swap f e es
  | trans _ _ ih ih' => exact trans ih ih'

theorem Rearranged.refl (es : List (String × Setting)) : Rearranged es es :=
  of_perm (.refl es)

end Setting

end OverDelimited
