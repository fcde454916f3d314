/-!
# TOML documents as values

A document is a table of named values.  Which parts of the text may still add to a table depends on
how the table came about, so every table carries its `TableOrigin`:

* a table opened by a header is complete when its section ends, and no header opens it twice;
* a table that was only passed through on the way to another header may still be opened, and dotted
  keys may lead on from it;
* a table made by a dotted key may get further dotted keys, and headers may lead on from it;
* an inline table is closed.

`Table.insert`, `Table.openTable` and `Table.openElement` are the three ways to add to a document;
each fails where the rules forbid it.

A number need not have a value: it may be too large, or its digits may turn out not to be digits.
Such a number stays in the document as `Value.unreadable` and is wrong only for those who look at
it.  `Value.isReadable` looks at everything in a value.
-/

set_option autoImplicit false

namespace DisplayRaster

namespace Toml

/-- How a table came about. -/
inductive TableOrigin where
  /-- Opened by a header. -/
  | header
  /-- Passed through by a header. -/
  | passed
  /-- Made by a dotted key. -/
  | dotted
  /-- Written between braces. -/
  | inline
  deriving DecidableEq

/-- A value of a document.  Floats and dates are kept as kinds only. -/
inductive Value where
  | text (content : String)
  | integer (value : Int)
  | float
  /-- A number without a value. -/
  | unreadable
  | boolean (value : Bool)
  | date
  | array (items : List Value)
  /-- The tables under a repeated header, the latest first. -/
  | tables (items : List (List (String × Value)))
  | table (origin : TableOrigin) (entries : List (String × Value))

mutual

/-- Whether all numbers in a value have values. -/
def Value.isReadable : Value → Bool
  | .unreadable => false
  | .array items => Value.allReadable items
  | .tables items => Value.tablesReadable items
  | .table _ entries => Value.entriesReadable entries
  | .text _ | .integer _ | .float | .boolean _ | .date => true

/-- Whether all numbers in some values have values. -/
def Value.allReadable : List Value → Bool
  | [] => true
  | item :: rest => item.isReadable && Value.allReadable rest

/-- Whether all numbers in some tables have values. -/
def Value.tablesReadable : List (List (String × Value)) → Bool
  | [] => true
  | entries :: rest => Value.entriesReadable entries && Value.tablesReadable rest

/-- Whether all numbers under some keys have values. -/
def Value.entriesReadable : List (String × Value) → Bool
  | [] => true
  | (_, item) :: rest => item.isReadable && Value.entriesReadable rest

end

theorem Value.allReadable_iff (items : List Value) :
    Value.allReadable items = true ↔ ∀ item ∈ items, item.isReadable = true := by
  induction items with
  | nil => simp [Value.allReadable]
  | cons item rest ih => simp [Value.allReadable, ih]

theorem Value.entriesReadable_iff (entries : List (String × Value)) :
    Value.entriesReadable entries = true ↔ ∀ entry ∈ entries, entry.2.isReadable = true := by
  induction entries with
  | nil => simp [Value.entriesReadable]
  | cons entry rest ih => simp [Value.entriesReadable, ih]

/-- The entries of a table, in the order of their first mention. -/
abbrev Table := List (String × Value)

namespace Table

/-- The value of a key. -/
def find? (t : Table) (key : String) : Option Value := t.lookup key

/-- The table with the value of a key replaced, or added at the end. -/
def put (t : Table) (key : String) (value : Value) : Table :=
  match t with
  | [] => [(key, value)]
  | (k, v) :: rest => if k = key then (k, value) :: rest else (k, v) :: put rest key value

/-- The table with a new value at a dotted key; none if the key is taken or leads through something
that dotted keys may not add to.  A dotted key may lead through a table that a header passed, and
through the latest table under a repeated header, but it has to end in a table that dotted keys
made. -/
def insert (value : Value) (t : Table) : (path : List String) → Option Table
  | [] => none
  | [key] => if (t.find? key).isSome then none else some (t.put key value)
  | key :: path =>
    match t.find? key with
    | none => return t.put key (.table .dotted (← insert value [] path))
    | some (.table .dotted entries) =>
      return t.put key (.table .dotted (← insert value entries path))
    | some (.table .passed entries) =>
      if path.length ≤ 1 then none
      else return t.put key (.table .passed (← insert value entries path))
    | some (.tables (latest :: earlier)) =>
      if path.length ≤ 1 then none
      else return t.put key (.tables ((← insert value latest path) :: earlier))
    | some _ => none

/-- Descend by one key of a header: into a table that is not inline, or into the latest table under
a repeated header.  A missing table is made. -/
def passThrough (t : Table) (key : String) (change : Table → Option Table) : Option Table :=
  match t.find? key with
  | none => return t.put key (.table .passed (← change []))
  | some (.table .inline _) => none
  | some (.table origin entries) => return t.put key (.table origin (← change entries))
  | some (.tables (latest :: earlier)) => return t.put key (.tables ((← change latest) :: earlier))
  | some _ => none

/-- The table with the table of a header opened; none if it is there already, unless it was only
passed through. -/
def openTable (t : Table) : (path : List String) → Option Table
  | [] => none
  | [key] =>
    match t.find? key with
    | none => some (t.put key (.table .header []))
    | some (.table .passed entries) => some (t.put key (.table .header entries))
    | some _ => none
  | key :: path => t.passThrough key fun entries ↦ openTable entries path

/-- The table with one more table under a repeated header; none if the key is something else. -/
def openElement (t : Table) : (path : List String) → Option Table
  | [] => none
  | [key] =>
    match t.find? key with
    | none => some (t.put key (.tables [[]]))
    | some (.tables items) => some (t.put key (.tables ([] :: items)))
    | some _ => none
  | key :: path => t.passThrough key fun entries ↦ openElement entries path

/-- The table with a change made to the table that a header opened. -/
def within (change : Table → Option Table) (t : Table) : (path : List String) → Option Table
  | [] => change t
  | key :: path => t.passThrough key fun entries ↦ within change entries path

end Table

end Toml

end DisplayRaster
