import Simplex.Tableau.Basic

/-!
# Starting tableaux

The tableau of a program before any pivot. Each constraint row has its coefficients, its bound, and
columns of its own: a slack for `≤`, a surplus with `-1` and an artificial variable for `≥`, an
artificial variable for `=`, handed out from the left in row order. The objective row of phase 1 is
the sum of the artificial variables, that of phase 2 the costs.
-/

namespace Simplex

structure FreeColumns where
  slack : Nat
  surplus : Nat
  artificial : Nat
  deriving Repr, BEq, DecidableEq

namespace Layout

def freeColumns (l : Layout) : FreeColumns where
  slack := l.slackStart
  surplus := l.surplusStart
  artificial := l.artificialStart

/-- What is free when each group is used up. -/
def usedUp (l : Layout) : FreeColumns where
  slack := l.surplusStart
  surplus := l.artificialStart
  artificial := l.rhs

end Layout

/-- The columns, each with its entry, that a row takes for itself. -/
abbrev OwnColumns (α : Type) := List (Nat × α)

variable [Scalar α]

/-- Takes the columns of one row. -/
def FreeColumns.take (free : FreeColumns) : Relation → OwnColumns α × FreeColumns
  | .atMost => ([(free.slack, 1)], { free with slack := free.slack + 1 })
  | .atLeast =>
    ([(free.surplus, -1), (free.artificial, 1)],
      { free with surplus := free.surplus + 1, artificial := free.artificial + 1 })
  | .equal => ([(free.artificial, 1)], { free with artificial := free.artificial + 1 })

/-- Takes the columns of the rows from the top. -/
def FreeColumns.takeAll (free : FreeColumns) : List Relation → List (OwnColumns α) × FreeColumns
  | [] => ([], free)
  | relation :: rest =>
    let (own, free) := free.take relation
    let (others, free) := free.takeAll rest
    (own :: others, free)

namespace Problem

/-- The columns of each constraint row, and what is then free. -/
def ownColumns (p : Problem α) : List (OwnColumns α) × FreeColumns :=
  (Layout.ofProblem p).freeColumns.takeAll (p.constraints.map (·.relation))

/-- The tableau of a program whose columns fit its layout. -/
def tableau (p : Problem α) (phase : Phase) : Tableau α :=
  let layout := Layout.ofProblem p
  let names := p.names
  let costs := p.costs
  let rows := p.constraints.zip p.ownColumns.1
  Tableau.ofFn layout p.constraints.length fun i j =>
    match rows[i]? with
    | some (c, own) =>
      if j = layout.rhs then c.bound
      else match names[j]? with
        | some name => c.coefficientOf name
        | none => (own.lookup j).getD 0
    | none =>
      match phase with
      | .one => if layout.isArtificial j then 1 else 0
      | .two => (costs[j]?).getD 0

/-- `tableau`, refused for a program without constraints. -/
def start (p : Problem α) (phase : Phase) : Except (Fault α) (Tableau α) :=
  if p.constraints.isEmpty then .error .noConstraints
  else if p.ownColumns.2 = (Layout.ofProblem p).usedUp then .ok (p.tableau phase)
  else .error .miscounted

end Problem

end Simplex
