import Simplex.Tableau.Basic

/-!
# Pivoting

The choice of a pivot and the step on it. The entering column has the most negative reduced cost,
the leaving row the least ratio of right-hand side and entry, and of equals the first is taken.
`pivot` makes the entering column the unit vector of the leaving row; `entry_pivot` gives its
entries.
-/

namespace Simplex.Tableau

variable [Scalar α]

/-- No reduced cost is negative beyond the tolerance. -/
def isOptimal (t : Tableau α) : Bool := t.reducedCosts.all fun r => -Scalar.tolerance ≤ r

/-- The column of the least reduced cost below minus the tolerance, the first of equals. -/
def enteringColumn (t : Tableau α) : Option Nat :=
  search 0 none (-Scalar.tolerance) t.reducedCosts
where
  /-- The column found so far and its cost, and then the better ones from column `j` on. -/
  search (j : Nat) (found : Option Nat) (best : α) : List α → Option Nat
    | [] => found
    | r :: rest =>
      if r < best then search (j + 1) (some j) r rest else search (j + 1) found best rest

/-- The largest magnitude in a list, zero for an empty one. What does not compare is passed over. -/
def scaleOf (entries : List α) : α :=
  entries.foldl (fun scale a => if scale < Scalar.abs a then Scalar.abs a else scale) 0

/-- The entry and the right-hand side of each constraint row. -/
def ratioPairs (t : Tableau α) (column : Nat) : List (α × α) :=
  (List.range t.constraintCount).map fun i => (t.entry i column, t.rhs i)

/-- The row of the least ratio among those with a positive entry that is not below the tolerance
in relation to the largest entry of the column; the first of equals. -/
def leavingRow (t : Tableau α) (column : Nat) : Option Nat :=
  let pairs := t.ratioPairs column
  search (Scalar.tolerance * scaleOf (pairs.map Prod.fst)) 0 none pairs
where
  /-- The row found so far with its ratio, and then the better ones from row `i` on. -/
  search (threshold : α) (i : Nat) (found : Option (Nat × α)) : List (α × α) → Option Nat
    | [] => found.map Prod.fst
    | (a, b) :: rest =>
      if 0 < a ∧ threshold < a ∧ better (b / a) found then
        search threshold (i + 1) (some (i, b / a)) rest
      else search threshold (i + 1) found rest
  better (ratio : α) : Option (Nat × α) → Bool
    | none => true
    | some (_, least) => ratio < least

/-- The tableau in which `column` is the unit vector of `row`: the row is divided by its entry, and
what it then contributes to each other row is taken off that row. -/
def pivot (t : Tableau α) (row column : Nat) : Tableau α :=
  ofFn t.layout t.constraintCount fun i j =>
    let unit := t.entry row j / t.entry row column
    if i = row then unit else t.entry i j - t.entry i column * unit

@[simp] theorem layout_pivot (t : Tableau α) (row column : Nat) :
    (t.pivot row column).layout = t.layout := rfl

@[simp] theorem constraintCount_pivot (t : Tableau α) (row column : Nat) :
    (t.pivot row column).constraintCount = t.constraintCount := by
  simp [pivot]

theorem entry_pivot {t : Tableau α} {i j : Nat} (row column : Nat)
    (hi : i ≤ t.constraintCount) (hj : j < t.layout.columns) :
    (t.pivot row column).entry i j =
      if i = row then t.entry row j / t.entry row column
      else t.entry i j - t.entry i column * (t.entry row j / t.entry row column) :=
  entry_ofFn hi hj

end Simplex.Tableau
