import Simplex.Tableau.Checked

/-!
# Descents

A descent pivots from tableau to tableau until none of the reduced costs is negative, the limit is
reached, or no pivot can be chosen. It keeps every step, with the pivot and the tableau after it,
also if it fails.
-/

namespace Simplex

structure Step (α : Type) where
  row : Nat
  column : Nat
  result : Tableau α

/-- The steps in order, and the optimal tableau or why there is none. -/
structure Descent (α : Type) where
  steps : List (Step α)
  ending : Except (Fault α) (Tableau α)

namespace Descent

def stopped (ending : Except (Fault α) (Tableau α)) : Descent α := { steps := [], ending }

def after (step : Step α) (d : Descent α) : Descent α := { d with steps := step :: d.steps }

variable [Scalar α]

/-- The descent of `phase` from `t` with `remaining` steps left of `limit`. -/
def run (phase : Phase) (limit : Nat) (remaining : Nat) (t : Tableau α) : Descent α :=
  if t.isOptimal then stopped (.ok t)
  else match remaining with
    | 0 => stopped (.error (.iterationLimit phase limit))
    | remaining + 1 =>
      match t.enteringColumn with
      | none => stopped (.error (.noImprovingColumn phase))
      | some column =>
        match Tableau.Checked.leavingRow t column with
        | .error fault => stopped (.error fault)
        | .ok none => stopped (.error (.noPivotRow phase column))
        | .ok (some row) =>
          match Tableau.Checked.pivot t row column with
          | .error fault => stopped (.error fault)
          | .ok next => after { row, column, result := next } (run phase limit remaining next)

end Descent

/-- The descent from `t` with at most `limit` steps. -/
def Tableau.descend [Scalar α] (t : Tableau α) (phase : Phase) (limit : Nat) : Descent α :=
  Descent.run phase limit limit t

end Simplex
