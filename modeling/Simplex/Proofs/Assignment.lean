import Simplex.Proofs.Rational
import Simplex.Problem.Basic

/-!
# Assignments

What a linear program says of values for its variables: the constraints hold or not, and the
objective has a value. `sum_totals` relates the sums over terms to those over variables, which is
what a tableau has columns for.
-/

namespace Simplex

abbrev Assignment := String → Rat

def Term.sumAt (terms : List (Term Rat)) (x : Assignment) : Rat :=
  (terms.map fun t => t.coefficient * x t.name).sum

def Relation.Holds : Relation → (left right : Rat) → Prop
  | .atMost, left, right => left ≤ right
  | .equal, left, right => left = right
  | .atLeast, left, right => right ≤ left

def Relation.HoldsWithin (error : Rat) : Relation → (left right : Rat) → Prop
  | .atMost, left, right => left ≤ right + error
  | .equal, left, right => |left - right| ≤ error
  | .atLeast, left, right => right ≤ left + error

instance instDecidableHolds (relation : Relation) (left right : Rat) :
    Decidable (relation.Holds left right) :=
  match relation with
  | .atMost => inferInstanceAs (Decidable (left ≤ right))
  | .equal => inferInstanceAs (Decidable (left = right))
  | .atLeast => inferInstanceAs (Decidable (right ≤ left))

instance instDecidableHoldsWithin (error : Rat) (relation : Relation) (left right : Rat) :
    Decidable (relation.HoldsWithin error left right) :=
  match relation with
  | .atMost => inferInstanceAs (Decidable (left ≤ right + error))
  | .equal => inferInstanceAs (Decidable (|left - right| ≤ error))
  | .atLeast => inferInstanceAs (Decidable (right ≤ left + error))

namespace Constraint

def leftAt (c : Constraint Rat) (x : Assignment) : Rat := Term.sumAt c.terms x

def HoldsAt (c : Constraint Rat) (x : Assignment) : Prop := c.relation.Holds (c.leftAt x) c.bound

instance instDecidableHoldsAt (c : Constraint Rat) (x : Assignment) : Decidable (c.HoldsAt x) :=
  inferInstanceAs (Decidable (c.relation.Holds (c.leftAt x) c.bound))

/-- The distance of the two sides of an inequality. -/
def gapAt (c : Constraint Rat) (x : Assignment) : Rat :=
  match c.relation with
  | .equal => 0
  | .atMost | .atLeast => |c.bound - c.leftAt x|

end Constraint

namespace Problem

/-- No variable is negative and all constraints hold. -/
def FeasibleAt (p : Problem Rat) (x : Assignment) : Prop :=
  (∀ name ∈ p.names, 0 ≤ x name) ∧ ∀ c ∈ p.constraints, c.HoldsAt x

instance instDecidableFeasibleAt (p : Problem Rat) (x : Assignment) : Decidable (p.FeasibleAt x) :=
  inferInstanceAs (Decidable ((∀ name ∈ p.names, 0 ≤ x name) ∧ ∀ c ∈ p.constraints, c.HoldsAt x))

def objectiveAt (p : Problem Rat) (x : Assignment) : Rat := Term.sumAt p.objective.terms x

/-- The value of the costs, which are to be minimized. -/
def costAt (p : Problem Rat) (x : Assignment) : Rat :=
  (List.zipWith (fun cost name => cost * x name) p.costs p.names).sum

/-- The sum of the variables and of the gaps of the inequalities. -/
def sizeAt (p : Problem Rat) (x : Assignment) : Rat :=
  (p.names.map x).sum + (p.constraints.map (·.gapAt x)).sum

def Better (p : Problem Rat) (value other : Rat) : Prop :=
  match p.direction with
  | .maximize => other < value
  | .minimize => value < other

/-- Feasible assignments are better than every bound. -/
def IsUnbounded (p : Problem Rat) : Prop :=
  ∀ bound, ∃ x, p.FeasibleAt x ∧ p.Better (p.objectiveAt x) bound

end Problem

/-! ### Sums over terms and over variables -/

theorem totalOf_eq (weigh : Rat → Rat) (terms : List (Term Rat)) (name : String) :
    totalOf weigh terms name =
      (terms.map fun t => if t.name = name then weigh t.coefficient else 0).sum := by
  have folded : ∀ start : Rat,
      terms.foldl (fun sum t => if t.name = name then sum + weigh t.coefficient else sum) start =
        start + (terms.map fun t => if t.name = name then weigh t.coefficient else 0).sum := by
    induction terms with
    | nil => simp
    | cons t rest ih =>
      intro start
      rw [List.foldl_cons, ih, List.map_cons, List.sum_cons]
      split <;> ring
  exact (folded 0).trans (zero_add _)

theorem sum_select {names : List String} (nodup : names.Nodup) {name : String}
    (member : name ∈ names) (w : Rat) (x : Assignment) :
    (names.map fun other => (if name = other then w else 0) * x other).sum = w * x name := by
  rw [← List.sum_toFinset _ nodup]
  simp only [ite_mul, zero_mul]
  rw [Finset.sum_ite_eq, if_pos (List.mem_toFinset.mpr member)]

/-- The sum over the variables of what the terms of each add up to. -/
theorem sum_totals {names : List String} (nodup : names.Nodup) (weigh : Rat → Rat)
    {terms : List (Term Rat)} (covered : ∀ t ∈ terms, t.name ∈ names) (x : Assignment) :
    (names.map fun name => totalOf weigh terms name * x name).sum =
      (terms.map fun t => weigh t.coefficient * x t.name).sum := by
  simp only [totalOf_eq]
  induction terms with
  | nil => simp
  | cons t rest ih =>
    have member := covered t List.mem_cons_self
    have others := ih fun u hu => covered u (List.mem_cons_of_mem t hu)
    simp only [List.map_cons, List.sum_cons, add_mul, List.sum_map_add]
    rw [others, sum_select nodup member]

theorem Problem.nodup_names {α : Type} (p : Problem α) : p.names.Nodup := nodup_firstAppearances _

theorem Problem.column?_eq_some_iff {α : Type} {p : Problem α} {name : String} {j : Nat} :
    p.column? name = some j ↔ p.names[j]? = some name := by
  rw [column?, List.idxOf?_eq_some_iff, List.getElem?_eq_some_iff]
  constructor
  · rintro ⟨inside, same, -⟩
    exact ⟨inside, same⟩
  · rintro ⟨inside, rfl⟩
    refine ⟨inside, rfl, fun k before same => ?_⟩
    exact before.ne (p.nodup_names.getElem_inj_iff.mp same)

theorem Problem.mem_names_of_objective {α : Type} {p : Problem α} {t : Term α}
    (h : t ∈ p.objective.terms) : t.name ∈ p.names :=
  mem_firstAppearances.mpr (List.mem_map_of_mem (List.mem_append_left _ h))

theorem Problem.mem_names_of_constraint {α : Type} {p : Problem α} {c : Constraint α} {t : Term α}
    (hc : c ∈ p.constraints) (ht : t ∈ c.terms) : t.name ∈ p.names :=
  mem_firstAppearances.mpr
    (List.mem_map_of_mem (List.mem_append_right _ (List.mem_flatMap.mpr ⟨c, hc, ht⟩)))

theorem Problem.sum_coefficients {p : Problem Rat} {c : Constraint Rat} (hc : c ∈ p.constraints)
    (x : Assignment) :
    (p.names.map fun name => c.coefficientOf name * x name).sum = c.leftAt x :=
  sum_totals p.nodup_names id (fun _ ht => p.mem_names_of_constraint hc ht) x

theorem Problem.costAt_eq (p : Problem Rat) (x : Assignment) :
    p.costAt x = match p.direction with
      | .maximize => -p.objectiveAt x
      | .minimize => p.objectiveAt x := by
  have weighed : ∀ sign : Rat,
      (p.names.map fun name => totalOf (sign * ·) p.objective.terms name * x name).sum =
        sign * p.objectiveAt x := by
    intro sign
    rw [sum_totals p.nodup_names (sign * ·) (fun _ ht => p.mem_names_of_objective ht), objectiveAt,
      Term.sumAt, ← List.sum_map_mul_left]
    simp only [mul_assoc]
  rw [costAt, costs, List.zipWith_map_left, List.zipWith_self]
  cases p.direction with
  | maximize => exact (weighed (-1)).trans (by ring)
  | minimize => exact (weighed 1).trans (by ring)

end Simplex
