import Simplex.Problem.Terms
import Simplex.Text.Blank

/-!
# Reading linear programs

An objective is a sequence of terms; a constraint is one on the left of a comparison sign, with a
finite number on its right. `Problem.ofTexts` reads the objective and then the constraints in order
and stops at the first text that it cannot read.
-/

namespace Simplex

def Relation.sign : Relation → List Char
  | .atMost => ['<', '=']
  | .equal => ['=']
  | .atLeast => ['>', '=']

/-- The order in which a text is searched for a sign: `=` last, for the others contain it. -/
def Relation.searchOrder : List Relation := [.atMost, .atLeast, .equal]

/-- The relation of a constraint with the texts on its left and on its right. -/
def splitRelation (text : List Char) : Option (List Char × Relation × List Char) :=
  Relation.searchOrder.findSome? fun relation =>
    (Text.splitOnce relation.sign text).map fun (left, right) => (left, relation, right)

def readBound [Scalar α] (text : List Char) : Option α :=
  ((Decimal.Numeral.ofText? text).map Decimal.Numeral.toScalar).filter Scalar.isFinite

/-- Reads one constraint. Of two flaws the left side being empty comes first, then the number on
the right, then the terms. -/
def readConstraint [Scalar α] (text : List Char) : Except SyntaxFault (Constraint α) :=
  match splitRelation text with
  | none => .error (.noOperator (String.ofList text))
  | some (left, relation, right) =>
    if Text.trim left = [] then .error (.emptyLeftSide (String.ofList text))
    else match readBound (Text.trim right) with
      | none => .error (.rightSideNotFinite (String.ofList right))
      | some bound => match readTerms (Text.trim left) with
        | .error cause => .error cause
        | .ok terms => .ok { terms, relation, bound }

def Term.listOfText [Scalar α] (text : String) : Except (Fault α) (List (Term α)) :=
  (readTerms text.toList).mapError (.unreadable none)

def Objective.ofText [Scalar α] (text : String) (direction : Direction) :
    Except (Fault α) (Objective α) :=
  (Term.listOfText text).map fun terms => { terms, direction }

/-- Reads the constraint at `position`, counted from 1. -/
def Constraint.ofText [Scalar α] (position : Nat) (text : String) :
    Except (Fault α) (Constraint α) :=
  (readConstraint text.toList).mapError (.unreadable (some position))

/-- Reads the constraints from `position` on. -/
def Constraint.listOfTexts [Scalar α] (position : Nat) :
    List String → Except (Fault α) (List (Constraint α))
  | [] => .ok []
  | text :: rest => do
    let first ← Constraint.ofText position text
    let others ← Constraint.listOfTexts (position + 1) rest
    return first :: others

def Problem.ofTexts [Scalar α] (objective : String) (constraints : List String)
    (direction : Direction) : Except (Fault α) (Problem α) := do
  let objective ← Objective.ofText objective direction
  let constraints ← Constraint.listOfTexts 1 constraints
  return { objective, constraints }

/-- A text as the reader expects it: no white space, comparison signs in ASCII. -/
def normalize (text : String) : String := String.ofList (Text.compact text.toList)

end Simplex
