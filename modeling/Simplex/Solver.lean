import Simplex.Session

/-!
# Solvers

A solver is a choice of how phase 2 begins, where the solution is read from, and how many pivots a
phase may take. `Solver.solve` takes the texts of a program to its solution.
-/

namespace Simplex

/-- By default phase 2 goes on from the basis of phase 1 and the basic solution is read. -/
structure Solver where
  maxIterations : Nat := 100
  transition : Transition := .carryBasis
  readout : Readout := .basicRhs
  deriving Repr, DecidableEq

structure Report (α : Type) where
  trace : Trace α
  solution : Solution α

namespace Solver

/-- The solver that starts phase 2 anew and reads the objective row. -/
def rebuilding : Solver where
  transition := .rebuild
  readout := .objectiveRow

def session (s : Solver) : Session α where
  transition := s.transition
  maxIterations := s.maxIterations

variable [Scalar α]

/-- Solves a program in a session and reads its solution. -/
def solveIn (s : Solver) (objective : String) (constraints : List String) (direction : Direction) :
    SessionM α (Report α) := do
  let terminal ← Session.run objective constraints direction
  let solution ← Session.ofExcept
    (Tableau.Checked.solution terminal.tableau terminal.problem s.readout)
  Session.tell [.optimumFound solution.objective]
  Session.push [.finalReport solution]
  return { trace := (← get).trace, solution }

def solveLogged (s : Solver) (objective : String) (constraints : List String)
    (direction : Direction) : Except (Fault α) (Report α) × List (Record α) :=
  match s.solveIn objective constraints direction s.session with
  | .ok report session => (.ok report, session.log)
  | .error fault session => (.error fault, session.log)

/-- Solves a program given as text, in ASCII and without white space. -/
def solve (s : Solver) (objective : String) (constraints : List String) (direction : Direction) :
    Except (Fault α) (Report α) :=
  (s.solveLogged objective constraints direction).1

end Solver

end Simplex
