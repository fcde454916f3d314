/-!
# Texture lookup tables

The colors that indexed texels stand for.  A table is a snapshot: its entries are copied out of
memory when it is set.  Entries beyond those loaded are transparent black.
-/

set_option autoImplicit false

namespace DisplayRaster

/-- A table of packed colors. -/
structure LookupTable where
  entries : Vector UInt16 256
  /-- How many entries have been loaded. -/
  count : Nat

namespace LookupTable

/-- The entries of one bank of a four-bit texture. -/
def bankSize : Nat := 16

/-- The table before any entry has been loaded. -/
def empty : LookupTable := ⟨Vector.replicate 256 0, 0⟩

/-- The entry of an index, which counts modulo the size of the table. -/
def lookup (table : LookupTable) (index : Nat) : UInt16 :=
  table.entries[index % 256]

/-- The table whose first entries are the first `count` values of `entry`; no more are loaded than
the table holds. -/
def load (count : Nat) (entry : Nat → UInt16) : LookupTable where
  entries := Vector.ofFn fun i ↦ if i.val < count then entry i.val else 0
  count := min count 256

/-- The table with `values` laid over its first entries. -/
def overlay (table : LookupTable) (values : Array UInt16) : LookupTable :=
  { table with entries := Vector.ofFn fun i ↦ values[i.val]?.getD table.entries[i.val] }

theorem lookup_load {count index : Nat} {entry : Nat → UInt16} (h : index < 256) :
    (load count entry).lookup index = if index < count then entry index else 0 := by
  simp [load, lookup, Nat.mod_eq_of_lt h]

end LookupTable

end DisplayRaster
