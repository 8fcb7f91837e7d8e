import Simplex.Proofs.Phases
import Simplex.Solver

/-!
# Bounds on the optimum

Whatever pivots a run makes, its optimal tableau measures the costs of each feasible assignment by
reduced costs that are not negative beyond the tolerance. So no feasible assignment beats the optimum
by more than the tolerance times its size (`optimum_bound`), and a remaining artificial sum is itself
such a bound on the size of every feasible assignment (`size_of_infeasible`).
-/

namespace Simplex

theorem Problem.direction_of_ofTexts {α : Type} [Scalar α] {objective : String}
    {constraints : List String} {direction : Direction} {p : Problem α}
    (read : Problem.ofTexts objective constraints direction = .ok p) : p.direction = direction := by
  obtain ⟨o, objectiveRead, rest⟩ := except_bind_ok read
  obtain ⟨cs, -, rest⟩ := except_bind_ok rest
  obtain rfl := Except.ok.inj rest
  unfold Objective.ofText at objectiveRead
  cases terms : (Term.listOfText objective : Except (Fault α) (List (Term α))) with
  | error fault =>
    rw [terms] at objectiveRead
    nomatch objectiveRead
  | ok terms' =>
    rw [terms] at objectiveRead
    obtain rfl := Except.ok.inj objectiveRead
    rfl

section
variable {objective : String} {constraints : List String} {direction : Direction}
  {s s' : Session Rat} {p : Problem Rat}

/-- No feasible assignment beats the optimum of a run beyond the tolerance. -/
theorem optimum_bound {terminal : Terminal Rat} {x : Assignment}
    (read : Problem.ofTexts objective constraints direction = .ok p)
    (solved : Session.run objective constraints direction s = .ok terminal s')
    (feasible : p.FeasibleAt x) :
    -terminal.tableau.objectiveValue - Scalar.tolerance * p.sizeAt x ≤ p.costAt x ∧
      match direction with
      | .maximize => p.objectiveAt x ≤
          (terminal.tableau.solution p .basicRhs).objective + Scalar.tolerance * p.sizeAt x
      | .minimize => (terminal.tableau.solution p .basicRhs).objective -
          Scalar.tolerance * p.sizeAt x ≤ p.objectiveAt x := by
  obtain ⟨-, ended⟩ := Session.optimum_of_run read solved
  obtain ⟨⟨System, pricing⟩, finished⟩ := Problem.pricing_phaseTwoEnd ended
  have bound := pricing.represents.bound (pricing.solved x feasible)
    (Problem.pointAt_nonneg feasible.1) (Tableau.le_of_isOptimal finished)
  rw [Problem.sum_pointAt_of_wide pricing.wide, Problem.costAt_pointAt] at bound
  refine ⟨bound, ?_⟩
  have cost := p.costAt_eq x
  have kind := Problem.direction_of_ofTexts read
  rw [cost, kind] at bound
  rw [Tableau.solution]
  dsimp only
  rw [kind]
  cases direction with
  | maximize =>
    dsimp only at bound ⊢
    linarith
  | minimize => exact bound

end

theorem optimum_bound_mixed : ∃ (p : Problem Rat) (terminal : Terminal Rat) (s' : Session Rat),
    Problem.ofTexts "3x1+2x2" ["x1+x2=4", "x1+3x2>=6", "x1<=3"] .maximize = .ok p ∧
      Session.run "3x1+2x2" ["x1+x2=4", "x1+3x2>=6", "x1<=3"] .maximize
        (({} : Solver).session) = .ok terminal s' ∧
      p.FeasibleAt (fun _ => 2) ∧
      -terminal.tableau.objectiveValue - Scalar.tolerance * p.sizeAt (fun _ => 2) ≤
        p.costAt (fun _ => 2) ∧
      p.objectiveAt (fun _ => 2) ≤ (terminal.tableau.solution p .basicRhs).objective +
        Scalar.tolerance * p.sizeAt (fun _ => 2) := by
  obtain ⟨p, read, feasible⟩ : Yields
      (Problem.ofTexts "3x1+2x2" ["x1+x2=4", "x1+3x2>=6", "x1<=3"] .maximize)
      fun p : Problem Rat => p.FeasibleAt fun _ => 2 := by decide +kernel
  have optimum : (Session.outcome (Session.run "3x1+2x2" ["x1+x2=4", "x1+3x2>=6", "x1<=3"] .maximize
      (({} : Solver).session))).map (·.tableau.objectiveValue) = .ok (11 : Rat) := by decide +kernel
  obtain ⟨terminal, s', solved, -⟩ := Session.ok_of_outcome optimum
  exact ⟨p, terminal, s', read, solved, feasible, optimum_bound read solved feasible⟩

/-! ### Infeasible programs -/

theorem Problem.infeasible_phaseTwoEnd {p : Problem Rat} {limit : Nat} {sum : Rat}
    (h : p.phaseTwoEnd .carryBasis limit = .error (.infeasible sum)) :
    ∃ last, p.phaseOneEnd .carryBasis limit = .ok last ∧ sum = -last.objectiveValue ∧
      Scalar.tolerance < sum := by
  cases Problem.failsIn h with
  | start kind => rcases kind with kind | kind <;> nomatch kind
  | phaseOne first _ ended => exact (Tableau.descend_ne_infeasible _ _ _ _ ended).elim
  | phaseTwo second _ ended => exact (Tableau.descend_ne_infeasible _ _ _ _ ended).elim
  | handover last ended remaining found =>
    obtain rfl := Fault.infeasible.inj found
    exact ⟨last, ended, rfl, remaining⟩

section
variable {objective : String} {constraints : List String} {direction : Direction}
  {s s' : Session Rat} {p : Problem Rat}

/-- A remaining artificial sum bounds the size of each feasible assignment, and if the last tableau
of phase 1 has no negative reduced cost at all there is none. -/
theorem size_of_infeasible {sum : Rat}
    (read : Problem.ofTexts objective constraints direction = .ok p)
    (carries : s.transition = .carryBasis)
    (failed : Session.run objective constraints direction s = .error (.infeasible sum) s') :
    Scalar.tolerance < sum ∧ (∀ x, p.FeasibleAt x → sum ≤ Scalar.tolerance * p.sizeAt x) ∧
      ∃ last, p.phaseOneEnd .carryBasis s.maxIterations = .ok last ∧
        ((∀ r ∈ last.reducedCosts, 0 ≤ r) → ∀ x, ¬ p.FeasibleAt x) := by
  have fault := Session.fault_of_run read failed
  rw [carries] at fault
  obtain ⟨last, ended, rfl, remaining⟩ := Problem.infeasible_phaseTwoEnd fault
  obtain ⟨layout, -, represents, finished⟩ := Problem.represents_phaseOneEnd ended
  have wide : (Layout.ofProblem p).artificialStart ≤ last.layout.rhs := by
    rw [layout]
    exact Layout.artificialStart_le_rhs _
  have bound : ∀ x, p.FeasibleAt x → ∀ least, (∀ r ∈ last.reducedCosts, -least ≤ r) →
      -last.objectiveValue ≤ least * p.sizeAt x := by
    intro x feasible least costs
    have below := represents.bound (Problem.solves_pointAt feasible)
      (Problem.pointAt_nonneg feasible.1) costs
    rw [Problem.sum_pointAt_of_wide wide, Problem.artificialSum_pointAt] at below
    linarith
  refine ⟨remaining, fun x feasible => ?_, last, ended, fun costs x feasible => ?_⟩
  · exact bound x feasible _ (Tableau.le_of_isOptimal finished)
  · have none := bound x feasible 0 (by simpa using costs)
    have positive := tolerance_pos
    linarith

end

theorem size_of_infeasible_contradiction : ∃ p : Problem Rat,
    Problem.ofTexts "x1" ["x1<=1", "x1>=2"] .minimize = .ok p ∧ ∀ x, ¬ p.FeasibleAt x := by
  obtain ⟨p, read, exact⟩ : Yields (Problem.ofTexts "x1" ["x1<=1", "x1>=2"] .minimize)
      fun p : Problem Rat => OnOk (p.phaseOneEnd .carryBasis 100) fun last =>
        ∀ r ∈ last.reducedCosts, 0 ≤ r := by decide +kernel
  have fault : (Session.outcome (Session.run "x1" ["x1<=1", "x1>=2"] .minimize
      (({} : Solver).session))).map (·.tableau) = .error (.infeasible (1 : Rat)) := by
    decide +kernel
  obtain ⟨s', failed⟩ := Session.error_of_outcome fault
  obtain ⟨-, -, last, ended, none⟩ := size_of_infeasible read rfl failed
  exact ⟨p, read, none (exact last ended)⟩

/-- A feasible program whose artificial sum is found to remain. -/
theorem infeasible_with_solution : ¬ ∀ (objective : String) (constraints : List String)
    (direction : Direction) (s s' : Session Rat) (p : Problem Rat) (sum : Rat),
    Problem.ofTexts objective constraints direction = .ok p →
    (∀ c ∈ p.constraints, 0 ≤ c.bound) → s.transition = .carryBasis →
    Session.run objective constraints direction s = .error (.infeasible sum) s' →
    ∀ x, ¬ p.FeasibleAt x := by
  intro h
  obtain ⟨p, read, bounds, feasible⟩ : Yields
      (Problem.ofTexts "x1" ["0.0000000001x1>=1"] .minimize) fun p : Problem Rat =>
        (∀ c ∈ p.constraints, 0 ≤ c.bound) ∧ p.FeasibleAt fun _ => 10000000000 := by
    decide +kernel
  have fault : (Session.outcome (Session.run "x1" ["0.0000000001x1>=1"] .minimize
      (({} : Solver).session))).map (·.tableau) = .error (.infeasible (1 : Rat)) := by
    decide +kernel
  obtain ⟨s', failed⟩ := Session.error_of_outcome fault
  exact h _ _ _ _ s' p 1 read bounds rfl failed _ feasible

end Simplex
