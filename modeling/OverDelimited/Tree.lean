/-!
# Written trees

What a program is written as before a format is chosen: nothing, text, lists, and records whose
fields stand in a fixed order.
-/

namespace OverDelimited

/-- A tree of texts, lists and records. -/
inductive Tree where
  | null
  | text (value : String)
  | list (items : List Tree)
  | record (fields : List (String × Tree))

end OverDelimited
