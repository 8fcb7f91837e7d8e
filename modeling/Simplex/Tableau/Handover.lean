import Simplex.Tableau.Start
import Simplex.Tableau.Checked

/-!
# From phase 1 to phase 2

Phase 1 minimizes the sum of the artificial variables, so its objective row is priced out against
the starting basis. If it ends with that sum at zero, `carryBasis` goes on from its last tableau:
artificial variables that are still basic are pivoted out, their columns are dropped, and the
objective row becomes the costs, priced out against the basis that is left.
-/

namespace Simplex

/-- What becomes of a row whose basic variable is artificial. -/
inductive Eviction where
  | swapped (row column : Nat)
  /-- All other variables have a zero in the row. -/
  | redundant (row : Nat)
  deriving Repr, BEq, DecidableEq

/-- The evictions in order, and the tableau after them or a fault. -/
structure Handover (α : Type) where
  evictions : List Eviction
  outcome : Except (Fault α) (Tableau α)

namespace Tableau

variable [Scalar α]

/-- For each row of a starting tableau, the slack or artificial column that holds its one. -/
def startingBasis (t : Tableau α) : List (Option Nat) :=
  let columns := List.range' t.layout.slackStart t.layout.slack ++
    List.range' t.layout.artificialStart t.layout.artificial
  (List.range t.constraintCount).map fun i => columns.find? fun j => t.entry i j == 1

/-- Takes a multiple of a row off the objective row. -/
def reduceObjective (t : Tableau α) (row : Nat) (factor : α) : Tableau α :=
  ofFn t.layout t.constraintCount fun i j =>
    if i = t.objectiveRow then t.entry i j - factor * t.entry row j else t.entry i j

/-- Makes the reduced cost of each basic column zero, from the row `row` down. -/
def priceFrom (row : Nat) (t : Tableau α) : (basis : List (Option Nat)) → Tableau α
  | [] => t
  | none :: rest => priceFrom (row + 1) t rest
  | some column :: rest =>
    let factor := t.entry t.objectiveRow column
    if factor == 0 then priceFrom (row + 1) t rest
    else priceFrom (row + 1) (t.reduceObjective row factor) rest

/-- Makes the reduced cost of each basic column zero. -/
def priceOut (t : Tableau α) (basis : List (Option Nat)) : Tableau α := priceFrom 0 t basis

def dropArtificial (t : Tableau α) : Tableau α :=
  ofFn t.layout.withoutArtificial t.constraintCount fun i j =>
    t.entry i (if j < t.layout.artificialStart then j else j + t.layout.artificial)

/-- The tableau with `costs` in its objective row and zeros behind them. -/
def withObjective (t : Tableau α) (costs : List α) : Tableau α :=
  ofFn t.layout t.constraintCount fun i j =>
    if i = t.objectiveRow then (costs[j]?).getD 0 else t.entry i j

def artificialRows (t : Tableau α) : List Nat :=
  t.basis.zipIdx.filterMap fun (basic, row) =>
    if basic.any t.layout.isArtificial then some row else none

/-- The first column in front of the artificial ones that is not zero in a row. -/
def replacement (t : Tableau α) (row : Nat) : Option Nat :=
  (List.range t.layout.artificialStart).find? fun j => Scalar.tolerance < Scalar.abs (t.entry row j)

/-- Pivots the artificial variables of the rows out, as far as another column can come in. -/
def driveOut (t : Tableau α) : (rows : List Nat) → Handover α
  | [] => { evictions := [], outcome := .ok t }
  | row :: rest =>
    match t.replacement row with
    | none =>
      let h := t.driveOut rest
      { h with evictions := .redundant row :: h.evictions }
    | some column =>
      match Checked.pivot t row column with
      | .error fault => { evictions := [.swapped row column], outcome := .error fault }
      | .ok next =>
        let h := next.driveOut rest
        { h with evictions := .swapped row column :: h.evictions }

/-! ### Entries of the results -/

theorem entry_reduceObjective {t : Tableau α} {i j : Nat} (row : Nat) (factor : α)
    (hi : i ≤ t.constraintCount) (hj : j < t.layout.columns) :
    (t.reduceObjective row factor).entry i j =
      if i = t.objectiveRow then t.entry i j - factor * t.entry row j else t.entry i j :=
  entry_ofFn hi hj

theorem entry_withObjective {t : Tableau α} {i j : Nat} (costs : List α)
    (hi : i ≤ t.constraintCount) (hj : j < t.layout.columns) :
    (t.withObjective costs).entry i j =
      if i = t.objectiveRow then (costs[j]?).getD 0 else t.entry i j :=
  entry_ofFn hi hj

theorem entry_dropArtificial {t : Tableau α} {i j : Nat} (hi : i ≤ t.constraintCount)
    (hj : j ≤ t.layout.artificialStart) :
    t.dropArtificial.entry i j =
      t.entry i (if j < t.layout.artificialStart then j else j + t.layout.artificial) :=
  entry_ofFn hi (Nat.lt_succ_of_le hj)

namespace Checked

def priceOut (t : Tableau α) (basis : List (Option Nat)) : Except (Fault α) (Tableau α) :=
  if basis.length ≤ t.constraintCount ∧ ∀ column ∈ basis.reduceOption, column < t.layout.columns
  then .ok (t.priceOut basis)
  else .error (.outside t.objectiveRow t.layout.columns)

def dropArtificial (t : Tableau α) : Except (Fault α) (Tableau α) :=
  let left := t.layout.columns - t.layout.artificial
  if left = t.layout.withoutArtificial.columns then .ok t.dropArtificial
  else .error (.misshapen t.rows.length left t.layout.withoutArtificial.columns)

def withObjective (t : Tableau α) (costs : List α) : Except (Fault α) (Tableau α) :=
  if costs.length ≤ t.layout.columns then .ok (t.withObjective costs)
  else .error (.outside t.objectiveRow t.layout.columns)

end Checked

/-- The objective row of a phase 1 start, priced out against the starting basis. -/
def priceStart (t : Tableau α) : Except (Fault α) (Tableau α) :=
  Checked.priceOut t t.startingBasis

/-- The phase 2 start of `p` on the basis that phase 1 ended with in `t`. The priced objective row
of phase 1 holds minus the sum of the artificial variables. -/
def carryBasis (t : Tableau α) (p : Problem α) : Handover α :=
  let artificialSum := -t.objectiveValue
  if Scalar.tolerance < artificialSum then
    { evictions := [], outcome := .error (.infeasible artificialSum) }
  else
    let driven := t.driveOut t.artificialRows
    { driven with
      outcome := do
        let carried ← Checked.dropArtificial (← driven.outcome)
        let priced ← Checked.withObjective carried p.costs
        Checked.priceOut priced carried.basis }

end Tableau

end Simplex
