import Simplex.Solution
import Simplex.Tableau.Descent
import Simplex.Tableau.Printer
import Simplex.Problem.Printer

/-!
# Traces

What a reader is shown of a solve: the input, the tableau that each phase begins with, the tableau
after each pivot, and the solution. A trace is a list of events, and its text is theirs in order.
-/

namespace Simplex

inductive Event (α : Type) where
  | objective (text : String)
  /-- The position counts from 1. -/
  | constraint (position : Nat) (text : String)
  | direction (direction : Direction)
  | initial (phase : Phase) (tableau : Tableau α)
  /-- The number counts the pivots of the phase from 1. -/
  | iteration (phase : Phase) (number : Nat) (tableau : Tableau α)
  | phaseOneComplete
  | finalReport (solution : Solution α)
  deriving DecidableEq

abbrev Trace (α : Type) := List (Event α)

def Event.ofInput (objective : String) (constraints : List String) (direction : Direction) :
    List (Event α) :=
  .objective objective :: constraints.zipIdx.map (fun (text, i) => .constraint (i + 1) text) ++
    [.direction direction]

/-- An event for each step. -/
def Descent.events (phase : Phase) (d : Descent α) : List (Event α) :=
  d.steps.zipIdx.map fun (step, i) => .iteration phase (i + 1) step.result

namespace Trace

/-- How many pivots of a phase a trace shows. -/
def iterations (phase : Phase) (trace : Trace α) : Nat :=
  trace.countP fun
    | .iteration p _ _ => p == phase
    | _ => false

/-- The first tableau that a phase begins with. -/
def initialTableau? (phase : Phase) (trace : Trace α) : Option (Tableau α) :=
  trace.findSome? fun
    | .initial p t => if p = phase then some t else none
    | _ => none

end Trace

/-! ### Text -/

/-- The optimal value, and a line for each variable above zero. -/
def Solution.text (s : Solution Float) : String :=
  "Optimal value: " ++ cellText s.objective ++ "\n" ++
    String.join (s.positiveValues.map fun (name, v) =>
      name ++ ": " ++ Decimal.fixedText 2 v ++ "\n")

def Event.text : Event Float → String
  | objective text => s!"Objective function: {text}\nConstraints:\n"
  | constraint position text => s!" R{position}: {text}\n"
  | direction d => s!"Optimization type: {d.text}\n\n"
  | initial .one t =>
    "Phase 1 - initial simplex tableau (with artificial variables):\n" ++ t.text ++ "\n"
  | initial .two t =>
    "Phase 2 - solving with the original objective function:\n" ++ t.text ++ "\n"
  | iteration phase number t =>
    s!"Iteration {number} (Phase {phase.number}):\n" ++ t.text ++ "\n"
  | phaseOneComplete => "Phase 1 complete. Artificial variables removed.\n"
  | finalReport solution => "\nOptimal result:\n" ++ solution.text

def Trace.text (trace : Trace Float) : String := String.join (trace.map Event.text)

end Simplex
