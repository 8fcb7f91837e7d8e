import Simplex.Tableau.Layout
import Simplex.Fault

/-!
# Tableaux

A tableau has a row for each constraint, the objective row under them, and the columns of its
layout. Its view is `entry`, which is zero outside; each operation builds its result with `ofFn`,
so that `entry_ofFn` says what the operation does to every entry.
-/

namespace Simplex

/-- At least one row, each as long as the layout is wide. -/
structure Tableau (α : Type) where
  layout : Layout
  /-- The constraint rows from the top, then the objective row. -/
  rows : List (List α)
  rows_ne_nil : rows ≠ []
  length_of_mem : ∀ row ∈ rows, row.length = layout.columns
  deriving DecidableEq

namespace Tableau

def constraintCount (t : Tableau α) : Nat := t.rows.length - 1

def objectiveRow (t : Tableau α) : Nat := t.constraintCount

theorem length_rows (t : Tableau α) : t.rows.length = t.constraintCount + 1 := by
  have h := List.length_pos_iff.mpr t.rows_ne_nil
  unfold constraintCount
  omega

/-- The row and the column of an entry, that of the right-hand side included. -/
def InRange (t : Tableau α) (row column : Nat) : Prop :=
  row < t.rows.length ∧ column < t.layout.columns

instance (t : Tableau α) (row column : Nat) : Decidable (t.InRange row column) :=
  inferInstanceAs (Decidable (_ ∧ _))

def ofFn (layout : Layout) (count : Nat) (f : Nat → Nat → α) : Tableau α where
  layout := layout
  rows := (List.range (count + 1)).map fun i => (List.range layout.columns).map (f i)
  rows_ne_nil := by simp
  length_of_mem := by simp

/-- The tableau with these rows of `width` entries each, if they fit the layout. -/
def ofRows (layout : Layout) (width : Nat) (rows : List (List α)) : Except (Fault α) (Tableau α) :=
  if h : rows ≠ [] ∧ width = layout.columns ∧ ∀ row ∈ rows, row.length = layout.columns then
    .ok { layout, rows, rows_ne_nil := h.1, length_of_mem := h.2.2 }
  else .error (.misshapen rows.length width layout.columns)

@[simp] theorem layout_ofFn (layout : Layout) (count : Nat) (f : Nat → Nat → α) :
    (ofFn layout count f).layout = layout := rfl

@[simp] theorem constraintCount_ofFn (layout : Layout) (count : Nat) (f : Nat → Nat → α) :
    (ofFn layout count f).constraintCount = count := by
  simp [ofFn, constraintCount]

@[simp] theorem objectiveRow_eq (t : Tableau α) : t.objectiveRow = t.constraintCount := rfl

variable [Scalar α]

/-- The entry at a row and a column, zero outside. -/
def entry (t : Tableau α) (row column : Nat) : α :=
  ((t.rows[row]?.getD [])[column]?).getD 0

theorem entry_ofFn {layout : Layout} {count : Nat} {f : Nat → Nat → α} {i j : Nat}
    (hi : i ≤ count) (hj : j < layout.columns) : (ofFn layout count f).entry i j = f i j := by
  have hi' : i < count + 1 := by omega
  simp [ofFn, entry, hi', hj]

theorem ext_entry {s t : Tableau α} (hl : s.layout = t.layout)
    (hc : s.constraintCount = t.constraintCount)
    (he : ∀ i j, i ≤ s.constraintCount → j < s.layout.columns → s.entry i j = t.entry i j) :
    s = t := by
  have hn : s.rows.length = t.rows.length := by rw [length_rows, length_rows, hc]
  have hr : s.rows = t.rows := by
    apply List.ext_getElem hn
    intro i hi ht
    have hsl := s.length_of_mem _ (List.getElem_mem hi)
    have htl := t.length_of_mem _ (List.getElem_mem ht)
    apply List.ext_getElem (by rw [hsl, htl, hl])
    intro j hj hj'
    have h := he i j (by rw [length_rows] at hi; omega) (by omega)
    simpa [entry, hi, ht, hj, hj'] using h
  cases s
  cases t
  simp_all

def zeros (layout : Layout) (count : Nat) : Tableau α := ofFn layout count fun _ _ => 0

def rhs (t : Tableau α) (row : Nat) : α := t.entry row t.layout.rhs

def objectiveValue (t : Tableau α) : α := t.rhs t.objectiveRow

/-- The objective row without its right-hand side. -/
def reducedCosts (t : Tableau α) : List α :=
  (List.range t.layout.rhs).map (t.entry t.objectiveRow)

/-- The entries of a column from the top, that of the objective row last. -/
def column (t : Tableau α) (j : Nat) : List α :=
  (List.range t.rows.length).map (t.entry · j)

/-- The row of the unit vector that a column is, with zeros and ones up to the tolerance. -/
def unitRow (t : Tableau α) (j : Nat) : Option Nat :=
  (search 0 none (t.column j)).filter (· ≠ t.objectiveRow)
where
  /-- The one found so far, and then the only one of the entries from row `i` on. -/
  search (i : Nat) (found : Option Nat) : List α → Option Nat
    | [] => found
    | v :: rest =>
      if Scalar.abs (v - 1) < Scalar.tolerance then
        if found.isSome then none else search (i + 1) (some i) rest
      else if Scalar.tolerance ≤ Scalar.abs v then none
      else search (i + 1) found rest

/-- For each constraint row, the first column that is its unit vector. -/
def basis (t : Tableau α) : List (Option Nat) :=
  let owners := (List.range t.layout.rhs).map t.unitRow
  (List.range t.constraintCount).map fun i => owners.idxOf? (some i)

end Tableau

end Simplex
