import Simplex.Problem.Basic
import Simplex.Decimal.Shortest

/-!
# Writing linear programs

Terms, constraints and programs on doubles as algebraic text. The sign of a term stands in front of
it and its coefficient is written without one.
-/

namespace Simplex

def Relation.text : Relation → String
  | .atMost => "≤"
  | .equal => "="
  | .atLeast => "≥"

def Direction.text : Direction → String
  | .maximize => "Maximize"
  | .minimize => "Minimize"

/-- A term without its sign. -/
def Term.unsignedText (t : Term Float) : String :=
  Decimal.shortestText t.coefficient.abs ++ " " ++ t.name

/-- A term behind another one. -/
def Term.nextText (t : Term Float) : String :=
  (if t.coefficient < 0 then " - " else " + ") ++ t.unsignedText

/-- A sum of terms. A plus sign in front of the first is not written. -/
def Term.sumText : List (Term Float) → String
  | [] => ""
  | t :: rest =>
    (if t.coefficient < 0 then "-" else "") ++ t.unsignedText ++
      String.join (rest.map Term.nextText)

def Constraint.text (c : Constraint Float) : String :=
  Term.sumText c.terms ++ " " ++ c.relation.text ++ " " ++ Decimal.shortestText c.bound

def Problem.text (p : Problem Float) : String :=
  (match p.direction with
    | .maximize => "maximize\n"
    | .minimize => "minimize\n") ++
    Term.sumText p.objective.terms ++ "\n\nsubject to\n" ++
    String.join (p.constraints.map fun c => c.text ++ "\n") ++
    "\nwith all variables nonnegative\n"

end Simplex
