import Simplex.Scalar

/-!
# Linear programs

A linear program is a list of terms to maximize or minimize and a list of constraints on
nonnegative variables. A program does not list its variables: they are the names in its terms, in
the order in which these first appear (`Problem.names`), and a variable's place in that order
is its column in every tableau of the program.
-/

namespace Simplex

structure Term (α : Type) where
  coefficient : α
  name : String
  deriving Repr, BEq, DecidableEq

inductive Relation where
  | atMost
  | equal
  | atLeast
  deriving Repr, BEq, DecidableEq

/-- The sum of the terms stands in the relation to the bound. -/
structure Constraint (α : Type) where
  terms : List (Term α)
  relation : Relation
  bound : α
  deriving Repr, BEq, DecidableEq

inductive Direction where
  | maximize
  | minimize
  deriving Repr, BEq, DecidableEq

structure Objective (α : Type) where
  terms : List (Term α)
  direction : Direction
  deriving Repr, BEq, DecidableEq

structure Problem (α : Type) where
  objective : Objective α
  constraints : List (Constraint α)
  deriving Repr, BEq, DecidableEq

/-- The names of a list, each where it first appears. -/
def firstAppearances : List String → List String
  | [] => []
  | name :: rest => name :: (firstAppearances rest).filter (· ≠ name)

theorem mem_firstAppearances {name : String} {names : List String} :
    name ∈ firstAppearances names ↔ name ∈ names := by
  induction names with
  | nil => simp [firstAppearances]
  | cons first rest ih =>
    by_cases h : name = first <;> simp [firstAppearances, h, ih]

theorem nodup_firstAppearances (names : List String) : (firstAppearances names).Nodup := by
  induction names with
  | nil => simp [firstAppearances]
  | cons first rest ih =>
    rw [firstAppearances, List.nodup_cons]
    exact ⟨by simp, ih.filter _⟩

/-- The sum of the coefficients of `name`, each weighed, added up from the left. -/
def totalOf [Scalar α] (weigh : α → α) (terms : List (Term α)) (name : String) : α :=
  terms.foldl (fun sum t => if t.name = name then sum + weigh t.coefficient else sum) 0

namespace Problem

/-- All terms, those of the objective first. -/
def terms (p : Problem α) : List (Term α) :=
  p.objective.terms ++ p.constraints.flatMap (·.terms)

/-- The names of the variables by first appearance. -/
def names (p : Problem α) : List String := firstAppearances (p.terms.map (·.name))

def column? (p : Problem α) (name : String) : Option Nat := p.names.idxOf? name

def direction (p : Problem α) : Direction := p.objective.direction

/-- The cost of each variable when the objective is minimized: the coefficients change their sign
if it is to be maximized. -/
def costs [Scalar α] (p : Problem α) : List α :=
  let sign : α := match p.direction with
    | .maximize => -1
    | .minimize => 1
  p.names.map (totalOf (sign * ·) p.objective.terms)

end Problem

def Constraint.coefficientOf [Scalar α] (c : Constraint α) (name : String) : α :=
  totalOf id c.terms name

end Simplex
