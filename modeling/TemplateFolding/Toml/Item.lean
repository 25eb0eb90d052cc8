import TemplateFolding.Text.Basic

/-!
# Tables of a TOML document

A document is a table of items. Its statements are carried out one after the other: a header opens
a table, an assignment puts an item at a key. What a table may still take depends on what brought
it into being, so every table keeps its origin. A statement that would define something twice is
refused.
-/

namespace TemplateFolding.Toml

/-- What brought a table into being. -/
inductive Origin where
  /-- It is written in braces and complete. -/
  | braces
  /-- It has a header of its own. -/
  | header
  /-- A header below it names it. It may still get a header of its own. -/
  | path
  /-- A dotted key names it. -/
  | dotted
deriving DecidableEq

/-- A value in a document. Of reals and moments only their kind is kept, because nothing here takes
one. -/
inductive Item where
  | bool (b : Bool)
  | integer (n : Int)
  | text (t : Text)
  | real
  /-- A date, a time of day or both. -/
  | moment
  | array (items : List Item)
  | table (origin : Origin) (entries : List (Text × Item))
  /-- The tables of an array that has a header for each of them. -/
  | tables (elements : List (List (Text × Item)))

/-- The entries of a table, in the order in which they were made. -/
abbrev Entries := List (Text × Item)

/-- A key: names with dots between them. -/
structure Key where
  first : Text
  rest : List Text
deriving DecidableEq

/-- The names of a key in order. -/
def Key.names (key : Key) : List Text :=
  key.first :: key.rest

namespace Entries

/-- The item with a name. -/
def get? (name : Text) : Entries → Option Item
  | [] => none
  | (k, item) :: rest => if k = name then some item else get? name rest

/-- Puts what `f` makes of the item with a name in its place. -/
def alter (name : Text) (f : Option Item → Option Item) : Entries → Option Entries
  | [] => (f none).map fun item => [(name, item)]
  | (k, item) :: rest =>
    if k = name then (f (some item)).map fun item' => (k, item') :: rest
    else (alter name f rest).map ((k, item) :: ·)

/-- Changes the last of several tables. -/
def alterLast (f : Entries → Option Entries) : List Entries → Option (List Entries)
  | [] => none
  | [last] => (f last).map ([·])
  | table :: next :: rest => (alterLast f (next :: rest)).map (table :: ·)

/-- Puts an item at a key, where nothing may be yet. The names before the last one lead through
tables that dotted keys may extend: the last of them has to be such a table, and none of them has
a header or braces of its own. -/
def assign (item : Item) : (first : Text) → (rest : List Text) → Entries → Option Entries
  | name, [], entries =>
    entries.alter name fun
      | none => some item
      | some _ => none
  | name, next :: rest, entries =>
    entries.alter name fun
      | none => (assign item next rest []).map (.table .dotted)
      | some (.table .dotted inner) => (assign item next rest inner).map (.table .dotted)
      | some (.table .path inner) =>
        if rest.isEmpty then none else (assign item next rest inner).map (.table .path)
      | some (.tables elements) =>
        if rest.isEmpty then none else (alterLast (assign item next rest) elements).map .tables
      | some _ => none

/-- Changes the table that a header leads to. Of an array of tables that is the last one. -/
def within (f : Entries → Option Entries) : List Text → Entries → Option Entries
  | [], entries => f entries
  | name :: names, entries =>
    entries.alter name fun
      | none => (within f names []).map (.table .path)
      | some (.table .braces _) => none
      | some (.table origin inner) => (within f names inner).map (.table origin)
      | some (.tables elements) => (alterLast (within f names) elements).map .tables
      | some _ => none

/-- Opens the table of a header. Headers below it may have named it before. -/
def openTable (name : Text) (entries : Entries) : Option Entries :=
  entries.alter name fun
    | none => some (.table .header [])
    | some (.table .path inner) => some (.table .header inner)
    | some _ => none

/-- Opens one more table of an array. -/
def openElement (name : Text) (entries : Entries) : Option Entries :=
  entries.alter name fun
    | none => some (.tables [[]])
    | some (.tables elements) => some (.tables (elements ++ [[]]))
    | some _ => none

/-- The table of the assignments between braces. -/
def ofAssignments (assignments : List (Key × Item)) : Option Entries :=
  assignments.foldlM (fun entries (key, item) => entries.assign item key.first key.rest) []

end Entries

/-- A statement of a document. -/
inductive Statement where
  | header (key : Key)
  | elementHeader (key : Key)
  | assignment (key : Key) (item : Item)

/-- A document in the making: its entries, and the header that assignments stand under. -/
structure Draft where
  entries : Entries := []
  header : List Text := []

/-- Carries out a statement. -/
def Draft.add (draft : Draft) : Statement → Option Draft
  | .header key => do
    let opened := Entries.openTable (key.names.getLast (by simp [Key.names]))
    let entries ← draft.entries.within opened key.names.dropLast
    some ⟨entries, key.names⟩
  | .elementHeader key => do
    let opened := Entries.openElement (key.names.getLast (by simp [Key.names]))
    let entries ← draft.entries.within opened key.names.dropLast
    some ⟨entries, key.names⟩
  | .assignment key item => do
    let entries ← draft.entries.within (·.assign item key.first key.rest) draft.header
    some ⟨entries, draft.header⟩

/-- The entries that statements make. -/
def Entries.ofStatements (statements : List Statement) : Option Entries :=
  (statements.foldlM Draft.add {}).map Draft.entries

end TemplateFolding.Toml
