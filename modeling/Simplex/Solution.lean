import Simplex.Tableau.Checked

/-!
# Solutions

The optimal value and the values of the variables, read from an optimal tableau. `Readout.basicRhs`
reads the basic solution; `Readout.objectiveRow` reads the objective row itself.
-/

namespace Simplex

/-- The optimal value and the value of each variable in column order. -/
structure Solution (α : Type) where
  objective : α
  values : List (String × α)
  deriving Repr, BEq, DecidableEq

/-- Where a solution is read from. -/
inductive Readout where
  /-- The optimal value is the one stored in the objective row. A variable has the value of its
  entry there if that is positive, and zero otherwise. -/
  | objectiveRow
  /-- A variable has the right-hand side of the row in which it is basic, and zero if it is in none.
  The optimal value is the one stored, negated for a minimum. -/
  | basicRhs
  deriving Repr, BEq, DecidableEq

variable [Scalar α]

namespace Solution

def value? (s : Solution α) (name : String) : Option α := s.values.lookup name

def positiveValues (s : Solution α) : List (String × α) := s.values.filter fun (_, v) => 0 < v

end Solution

namespace Tableau

/-- The value of column `j` in the basic solution, zero within the tolerance. -/
def basicValue (t : Tableau α) (basis : List (Option Nat)) (j : Nat) : α :=
  match basis.idxOf? (some j) with
  | none => 0
  | some row => if Scalar.abs (t.rhs row) < Scalar.tolerance then 0 else t.rhs row

/-- The entry of column `j` in the objective row if it is positive, and zero otherwise. -/
def positiveCost (t : Tableau α) (j : Nat) : α :=
  if 0 < t.entry t.objectiveRow j then t.entry t.objectiveRow j else 0

/-- The solution of `p` that a readout finds. -/
def solution (t : Tableau α) (p : Problem α) : Readout → Solution α
  | .objectiveRow =>
    { objective := t.objectiveValue
      values := p.names.zipIdx.map fun (name, j) => (name, t.positiveCost j) }
  | .basicRhs =>
    let basis := t.basis
    { objective := match p.direction with
        | .maximize => t.objectiveValue
        | .minimize => -t.objectiveValue
      values := p.names.zipIdx.map fun (name, j) => (name, t.basicValue basis j) }

/-- `solution`, refused if a variable has no column to read. -/
def Checked.solution (t : Tableau α) (p : Problem α) (readout : Readout) :
    Except (Fault α) (Solution α) :=
  if readout = .objectiveRow ∧ t.layout.columns < p.names.length then
    .error (.outside t.objectiveRow t.layout.columns)
  else .ok (t.solution p readout)

end Tableau

end Simplex
