import Simplex.Problem.Basic

/-!
# Column layouts

The columns of a tableau stand in groups: decision variables, slacks, surpluses, artificial
variables, and the right-hand side in the last column.
-/

namespace Simplex

/-- How many columns each group has. -/
structure Layout where
  decision : Nat
  slack : Nat
  surplus : Nat
  artificial : Nat
  deriving Repr, BEq, DecidableEq

namespace Layout

def slackStart (l : Layout) : Nat := l.decision

def surplusStart (l : Layout) : Nat := l.slackStart + l.slack

def artificialStart (l : Layout) : Nat := l.surplusStart + l.surplus

/-- The column of the right-hand side. -/
def rhs (l : Layout) : Nat := l.artificialStart + l.artificial

def columns (l : Layout) : Nat := l.rhs + 1

def isArtificial (l : Layout) (column : Nat) : Bool :=
  l.artificialStart ≤ column && column < l.rhs

def withoutArtificial (l : Layout) : Layout := { l with artificial := 0 }

/-- A slack for each `≤`, a surplus for each `≥`, and an artificial variable for each `≥` and
each `=`. -/
def ofProblem (p : Problem α) : Layout where
  decision := p.names.length
  slack := p.constraints.countP (·.relation == .atMost)
  surplus := p.constraints.countP (·.relation == .atLeast)
  artificial := p.constraints.countP (·.relation != .atMost)

@[simp] theorem slackStart_withoutArtificial (l : Layout) :
    l.withoutArtificial.slackStart = l.slackStart := rfl

@[simp] theorem surplusStart_withoutArtificial (l : Layout) :
    l.withoutArtificial.surplusStart = l.surplusStart := rfl

@[simp] theorem artificialStart_withoutArtificial (l : Layout) :
    l.withoutArtificial.artificialStart = l.artificialStart := rfl

@[simp] theorem rhs_withoutArtificial (l : Layout) :
    l.withoutArtificial.rhs = l.artificialStart := rfl

theorem decision_le_artificialStart (l : Layout) : l.decision ≤ l.artificialStart := by
  simp only [artificialStart, surplusStart, slackStart]
  omega

theorem artificialStart_le_rhs (l : Layout) : l.artificialStart ≤ l.rhs :=
  Nat.le_add_right _ _

theorem rhs_lt_columns (l : Layout) : l.rhs < l.columns := Nat.lt_succ_self _

end Layout

end Simplex
