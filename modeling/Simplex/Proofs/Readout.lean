import Simplex.Proofs.Detection
import Simplex.Proofs.Outcome
import Simplex.Proofs.Points
import Simplex.Solver

/-!
# Reading solutions

A solver reports the solution that it reads from the tableau that phase 2 ends with
(`tableau_of_solve`). The value reported for a variable is the one read from its column
(`assignment_solution`), and values within an error of a feasible assignment satisfy each constraint
up to that error times the sum of its coefficients (`holdsWithin_of_close`).
-/

namespace Simplex

section
variable {α : Type} [Scalar α]

theorem Solver.tableau_of_solve {solver : Solver} {objective : String} {constraints : List String}
    {direction : Direction} {p : Problem α} {report : Report α}
    (read : Problem.ofTexts objective constraints direction = .ok p)
    (solved : solver.solve objective constraints direction = .ok report) :
    ∃ t, p.phaseTwoEnd solver.transition solver.maxIterations = .ok t ∧
      Tableau.Checked.solution t p solver.readout = .ok report.solution := by
  have same : Session.outcome
      (solver.solveIn objective constraints direction (solver.session : Session α)) =
        .ok report := by
    rw [← solved, Solver.solve, Solver.solveLogged]
    cases solver.solveIn objective constraints direction (solver.session : Session α) <;> rfl
  rw [Solver.solveIn, Session.outcome_bind] at same
  cases ran : Session.run objective constraints direction (solver.session : Session α) with
  | error fault s' =>
    rw [ran] at same
    nomatch same
  | ok terminal s' =>
    obtain ⟨rfl, ended⟩ := Session.optimum_of_run read ran
    refine ⟨terminal.tableau, ended, ?_⟩
    rw [ran] at same
    dsimp only at same
    rw [Session.outcome_bind] at same
    cases found : Tableau.Checked.solution terminal.tableau terminal.problem solver.readout with
    | error fault =>
      rw [found] at same
      nomatch same
    | ok solution =>
      rw [found] at same
      obtain rfl := Except.ok.inj same
      rfl

end

def Solution.assignment (s : Solution Rat) : Assignment := fun name => (s.value? name).getD 0

theorem lookup_of_mem_nodup {β γ : Type} [BEq β] [LawfulBEq β] {l : List (β × γ)} {k : β} {v : γ}
    (nodup : (l.map Prod.fst).Nodup) (h : (k, v) ∈ l) : l.lookup k = some v := by
  induction l with
  | nil => nomatch h
  | cons first rest ih =>
    obtain ⟨name, value⟩ := first
    rw [List.map_cons, List.nodup_cons] at nodup
    rw [List.lookup_cons]
    rcases List.mem_cons.mp h with same | later
    · obtain ⟨rfl, rfl⟩ := Prod.mk.inj same
      simp
    · have other : k ≠ name := by
        rintro rfl
        exact nodup.1 (List.mem_map.mpr ⟨(k, v), later, rfl⟩)
      rw [beq_eq_false_iff_ne.mpr other]
      exact ih nodup.2 later

namespace Problem

theorem assignment_solution {p : Problem Rat} {j : Nat} (t : Tableau Rat) (hj : j < p.names.length) :
    (t.solution p .basicRhs).assignment p.names[j] = t.basicValue t.basis j := by
  have names : (t.solution p .basicRhs).values.map Prod.fst = p.names := by
    simp only [Tableau.solution, List.map_map]
    exact List.zipIdx_map_fst ..
  have member : (p.names[j], t.basicValue t.basis j) ∈ (t.solution p .basicRhs).values :=
    List.mem_map.mpr ⟨(p.names[j], j), List.mem_zipIdx_iff_getElem?.mpr (by simp [hj]), rfl⟩
  rw [Solution.assignment, Solution.value?, lookup_of_mem_nodup (by rw [names]; exact p.nodup_names)
    member, Option.getD_some]

theorem value_of_solution {p : Problem Rat} {t : Tableau Rat} {q : String × Rat}
    (h : q ∈ (t.solution p .basicRhs).values) : ∃ j, q.2 = t.basicValue t.basis j := by
  obtain ⟨⟨name, j⟩, -, rfl⟩ := List.mem_map.mp h
  exact ⟨j, rfl⟩

end Problem

/-! ### Errors -/

/-- The sum of the magnitudes of the coefficients of a constraint. -/
def Problem.weightOf (p : Problem Rat) (c : Constraint Rat) : Rat :=
  (p.names.map fun name => |c.coefficientOf name|).sum

theorem abs_sum_sub_le {β : Type} {l : List β} {a x y : β → Rat} {error : Rat}
    (close : ∀ b ∈ l, |y b - x b| ≤ error) :
    |(l.map fun b => a b * y b).sum - (l.map fun b => a b * x b).sum| ≤
      error * (l.map fun b => |a b|).sum := by
  induction l with
  | nil => simp
  | cons first rest ih =>
    have others := ih fun b member => close b (List.mem_cons_of_mem first member)
    have own : |a first * (y first - x first)| ≤ error * |a first| := by
      rw [abs_mul, mul_comm]
      exact mul_le_mul_of_nonneg_right (close first List.mem_cons_self) (abs_nonneg _)
    simp only [List.map_cons, List.sum_cons]
    calc |a first * y first + (rest.map fun b => a b * y b).sum -
            (a first * x first + (rest.map fun b => a b * x b).sum)|
        = |a first * (y first - x first) + ((rest.map fun b => a b * y b).sum -
            (rest.map fun b => a b * x b).sum)| := by ring_nf
      _ ≤ |a first * (y first - x first)| + |(rest.map fun b => a b * y b).sum -
            (rest.map fun b => a b * x b).sum| := abs_add_le _ _
      _ ≤ error * |a first| + error * (rest.map fun b => |a b|).sum := add_le_add own others
      _ = error * (|a first| + (rest.map fun b => |a b|).sum) := by ring

theorem Relation.Holds.within {relation : Relation} {left left' right error : Rat}
    (h : relation.Holds left right) (close : |left' - left| ≤ error) :
    relation.HoldsWithin error left' right := by
  have bounds := abs_le.mp close
  cases relation with
  | atMost =>
    have holds : left ≤ right := h
    show left' ≤ right + error
    linarith
  | equal =>
    obtain rfl : left = right := h
    exact close
  | atLeast =>
    have holds : right ≤ left := h
    show right ≤ left' + error
    linarith

theorem holdsWithin_of_close {p : Problem Rat} {x y : Assignment} {error : Rat}
    (feasible : p.FeasibleAt x) (close : ∀ name ∈ p.names, |y name - x name| ≤ error)
    {c : Constraint Rat} (hc : c ∈ p.constraints) :
    c.relation.HoldsWithin (error * p.weightOf c) (c.leftAt y) c.bound := by
  apply (feasible.2 c hc).within
  rw [← p.sum_coefficients hc, ← p.sum_coefficients hc]
  exact abs_sum_sub_le close

end Simplex
