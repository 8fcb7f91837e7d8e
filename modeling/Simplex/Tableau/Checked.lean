import Simplex.Tableau.Pivot

/-!
# Operations with their indices checked

The operations of a tableau, each refused with a fault if it would read outside. The solver works
through these, so that a run without such a fault never left its tableaux.
-/

namespace Simplex.Tableau.Checked

variable [Scalar α]

def entry (t : Tableau α) (row column : Nat) : Except (Fault α) α :=
  if t.InRange row column then .ok (t.entry row column) else .error (.outside row column)

def rhs (t : Tableau α) (row : Nat) : Except (Fault α) α := entry t row t.layout.rhs

def row (t : Tableau α) (i : Nat) : Except (Fault α) (List α) :=
  match t.rows[i]? with
  | some entries => .ok entries
  | none => .error (.outside i 0)

def unitRow (t : Tableau α) (column : Nat) : Except (Fault α) (Option Nat) :=
  if column < t.layout.columns then .ok (t.unitRow column) else .error (.outside 0 column)

/-- With no constraint row there is nothing to read, whatever the column. -/
def leavingRow (t : Tableau α) (column : Nat) : Except (Fault α) (Option Nat) :=
  if t.constraintCount = 0 ∨ column < t.layout.columns then .ok (t.leavingRow column)
  else .error (.outside 0 column)

def pivot (t : Tableau α) (row column : Nat) : Except (Fault α) (Tableau α) :=
  if t.InRange row column then .ok (t.pivot row column) else .error (.outside row column)

end Simplex.Tableau.Checked
