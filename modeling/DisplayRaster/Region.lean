/-!
# Regions of pixels

Draws visit the pixels of a half-open rectangle one by one, and the order is visible when pixels
share memory.  `Region.foldRows` goes row by row from the top and `Region.foldColumns` column by
column from the left; `Region.rowMajor` and `Region.columnMajor` list the pixels in these orders,
and each fold is the fold over its list.
-/

set_option autoImplicit false

namespace DisplayRaster

/-- `count` consecutive integers from `start`, each given to `f` in turn. -/
@[specialize]
def foldRange {σ : Type} (f : σ → Int → σ) : (count : Nat) → (start : Int) → σ → σ
  | 0, _, s => s
  | count + 1, start, s => foldRange f count (start + 1) (f s start)

/-- The integers that `foldRange` visits. -/
def rangeList : (count : Nat) → (start : Int) → List Int
  | 0, _ => []
  | count + 1, start => start :: rangeList count (start + 1)

theorem foldRange_eq_foldl {σ : Type} (f : σ → Int → σ) (count : Nat) (start : Int) (s : σ) :
    foldRange f count start s = (rangeList count start).foldl f s := by
  induction count generalizing start s with
  | zero => rfl
  | succ count ih => simp [foldRange, rangeList, ih]

@[simp]
theorem mem_rangeList {count : Nat} {start i : Int} :
    i ∈ rangeList count start ↔ start ≤ i ∧ i < start + count := by
  induction count generalizing start with
  | zero => simp [rangeList]
  | succ count ih => simp [rangeList, ih]; omega

/-- The half-open rectangle `x0 ≤ x < x1`, `y0 ≤ y < y1`; empty if the bounds are out of order. -/
structure Region where
  x0 : Int
  y0 : Int
  x1 : Int
  y1 : Int
  deriving DecidableEq

namespace Region

/-- The number of columns. -/
def columns (r : Region) : Nat := (r.x1 - r.x0).toNat

/-- The number of rows. -/
def rows (r : Region) : Nat := (r.y1 - r.y0).toNat

/-- Whether a pixel lies in the region. -/
def Contains (r : Region) (x y : Int) : Prop := r.x0 ≤ x ∧ x < r.x1 ∧ r.y0 ≤ y ∧ y < r.y1

/-- The pixels row by row, each row from the left. -/
def rowMajor (r : Region) : List (Int × Int) :=
  (rangeList r.rows r.y0).flatMap fun y ↦ (rangeList r.columns r.x0).map fun x ↦ (x, y)

/-- The pixels column by column, each column from the top. -/
def columnMajor (r : Region) : List (Int × Int) :=
  (rangeList r.columns r.x0).flatMap fun x ↦ (rangeList r.rows r.y0).map fun y ↦ (x, y)

/-- Every pixel of the region given to `f`, row by row. -/
@[specialize]
def foldRows {σ : Type} (r : Region) (f : σ → Int → Int → σ) (s : σ) : σ :=
  foldRange (fun s y ↦ foldRange (fun s x ↦ f s x y) r.columns r.x0 s) r.rows r.y0 s

/-- Every pixel of the region given to `f`, column by column. -/
@[specialize]
def foldColumns {σ : Type} (r : Region) (f : σ → Int → Int → σ) (s : σ) : σ :=
  foldRange (fun s x ↦ foldRange (fun s y ↦ f s x y) r.rows r.y0 s) r.columns r.x0 s

theorem mem_rowMajor {r : Region} {x y : Int} : (x, y) ∈ r.rowMajor ↔ r.Contains x y := by
  simp only [rowMajor, Contains, rows, columns, List.mem_flatMap, List.mem_map, mem_rangeList,
    Prod.mk.injEq]
  constructor
  · rintro ⟨_, hy, _, hx, rfl, rfl⟩; omega
  · intro h; exact ⟨y, by omega, x, by omega, rfl, rfl⟩

theorem mem_columnMajor {r : Region} {x y : Int} : (x, y) ∈ r.columnMajor ↔ r.Contains x y := by
  simp only [columnMajor, Contains, rows, columns, List.mem_flatMap, List.mem_map, mem_rangeList,
    Prod.mk.injEq]
  constructor
  · rintro ⟨_, hx, _, hy, rfl, rfl⟩; omega
  · intro h; exact ⟨x, by omega, y, by omega, rfl, rfl⟩

theorem foldRows_eq_foldl {σ : Type} (r : Region) (f : σ → Int → Int → σ) (s : σ) :
    r.foldRows f s = r.rowMajor.foldl (fun s p ↦ f s p.1 p.2) s := by
  simp [foldRows, rowMajor, foldRange_eq_foldl, List.foldl_flatMap, List.foldl_map]

theorem foldColumns_eq_foldl {σ : Type} (r : Region) (f : σ → Int → Int → σ) (s : σ) :
    r.foldColumns f s = r.columnMajor.foldl (fun s p ↦ f s p.1 p.2) s := by
  simp [foldColumns, columnMajor, foldRange_eq_foldl, List.foldl_flatMap, List.foldl_map]

end Region

end DisplayRaster
