import Simplex.Proofs.Multipliers
import Simplex.Proofs.Readout

/-!
# The reported objective value

The objective value is read from the objective row and the values of the variables from the rows of
the basic columns found. The two agree up to what reading the values chops off if the columns found
are exact and no row with a cost has lost its column since the handover
(`abs_objective_sub_le_of_solve`). None of the conditions in `ReadsTruly` can be left out
(`unequal_objectives`).
-/

namespace Simplex

namespace Problem

variable {p : Problem Rat} {limit : Nat}

def FindsUnits (p : Problem Rat) (limit : Nat) : Prop :=
  OnOk (p.phaseTwoEnd .carryBasis limit) Tableau.FindsUnits

instance instDecidableFindsUnits (p : Problem Rat) (limit : Nat) :
    Decidable (p.FindsUnits limit) := inferInstanceAs (Decidable (OnOk _ _))

def FindsPriced (p : Problem Rat) (limit : Nat) : Prop :=
  OnOk (p.phaseTwoEnd .carryBasis limit) fun t => t.IsPriced t.basicColumn

instance instDecidableFindsPriced (p : Problem Rat) (limit : Nat) :
    Decidable (p.FindsPriced limit) := inferInstanceAs (Decidable (OnOk _ _))

/-- A row in which no basic column is found in the end had none at the handover either, or has a zero
on its right. -/
def KeepsRows (p : Problem Rat) (limit : Nat) : Prop :=
  OnOk (p.phaseOneEnd .carryBasis limit >>= Tableau.handedOver) fun carried =>
    OnOk (p.phaseTwoEnd .carryBasis limit) fun t => t.KeepsRows carried.basicColumn

instance instDecidableKeepsRows (p : Problem Rat) (limit : Nat) :
    Decidable (p.KeepsRows limit) := inferInstanceAs (Decidable (OnOk _ _))

/-- The values read in the end account for the objective row. -/
structure ReadsTruly (p : Problem Rat) (limit : Nat) : Prop where
  units : p.FindsUnits limit
  priced : p.FindsPriced limit
  rows : p.KeepsRows limit

instance instDecidableReadsTruly (p : Problem Rat) (limit : Nat) :
    Decidable (p.ReadsTruly limit) :=
  decidable_of_iff (p.FindsUnits limit ∧ p.FindsPriced limit ∧ p.KeepsRows limit)
    ⟨fun ⟨units, priced, rows⟩ => ⟨units, priced, rows⟩,
      fun ⟨units, priced, rows⟩ => ⟨units, priced, rows⟩⟩

theorem ReadsTruly.costAt_basicPoint {t : Tableau Rat} (truly : p.ReadsTruly limit)
    (ended : p.phaseTwoEnd .carryBasis limit = .ok t) :
    Tableau.costAt p.costs (t.basicPoint t.basicColumn) = -t.objectiveValue := by
  have units := truly.units t ended
  have priced := truly.priced t ended
  obtain ⟨second, started, descended⟩ := except_bind_ok ended
  obtain ⟨last, carried, first, handed, rfl⟩ := handover_of_phaseTwoStart started
  have kept := truly.rows carried (by rw [first]; exact handed) t ended
  obtain ⟨rfl, -⟩ := Tableau.optimal_of_descend descended
  obtain ⟨layout, -, represents, -⟩ := represents_phaseOneEnd first
  have wide := ((pricing_handover layout represents handed).descend .two limit).wide
  exact Tableau.costAt_basicPoint ((carried.accounts_recosted p.costs).descend .two limit)
    (le_trans p.costs_fit wide) units priced kept

theorem objectiveAt_of_costAt {x : Assignment} {value : Rat} (h : p.costAt x = -value) :
    p.objectiveAt x = match p.direction with | .maximize => value | .minimize => -value := by
  rw [costAt_eq] at h
  cases kind : p.direction with
  | maximize =>
    rw [kind] at h
    exact neg_inj.mp h
  | minimize =>
    rw [kind] at h
    exact h

end Problem

/-- The reported objective value is that of the objective at the reported values if the run reads
truly, up to the tolerance in each variable. -/
theorem abs_objective_sub_le_of_solve {objective : String} {constraints : List String}
    {direction : Direction} {limit : Nat} {p : Problem Rat} {report : Report Rat}
    (read : Problem.ofTexts objective constraints direction = .ok p)
    (truly : p.ReadsTruly limit)
    (solved : ({ maxIterations := limit } : Solver).solve objective constraints direction =
      .ok report) :
    |report.solution.objective - p.objectiveAt report.solution.assignment| ≤
      Scalar.tolerance * (p.objective.terms.map fun term => |term.coefficient|).sum := by
  obtain ⟨t, ended, found⟩ := Solver.tableau_of_solve read solved
  have same : report.solution = t.solution p .basicRhs := (Except.ok.inj found).symm
  have cost := truly.costAt_basicPoint ended
  rw [p.costAt_valuesAt] at cost
  have value : report.solution.objective =
      p.objectiveAt (p.valuesAt (t.basicPoint t.basicColumn)) := by
    rw [same]
    exact (Problem.objectiveAt_of_costAt cost).symm
  rw [value, abs_sub_comm]
  refine abs_sum_sub_le fun term member => ?_
  obtain ⟨j, hj, name⟩ := List.getElem_of_mem (p.mem_names_of_objective member)
  rw [← name, same, Problem.assignment_solution t hj, Problem.valuesAt_getElem hj,
    Tableau.basicValue_eq_chopped]
  exact Tableau.abs_chopped_sub_le _

theorem abs_objective_sub_le_of_solve_mixed : ∃ (p : Problem Rat) (report : Report Rat),
    Problem.ofTexts "3x1+2x2" ["x1+x2=4", "x1+3x2>=6", "x1<=3"] .maximize = .ok p ∧
      ({ maxIterations := 100 } : Solver).solve "3x1+2x2"
        ["x1+x2=4", "x1+3x2>=6", "x1<=3"] .maximize = .ok report ∧
      report.solution.objective = 11 ∧ p.objectiveAt report.solution.assignment = 11 ∧
      |report.solution.objective - p.objectiveAt report.solution.assignment| ≤
        Scalar.tolerance * (p.objective.terms.map fun term => |term.coefficient|).sum := by
  obtain ⟨p, read, truly, report, solved, value, same⟩ : Yields
      (Problem.ofTexts "3x1+2x2" ["x1+x2=4", "x1+3x2>=6", "x1<=3"] .maximize)
      fun p : Problem Rat => p.ReadsTruly 100 ∧ Yields (({ maxIterations := 100 } : Solver).solve
        "3x1+2x2" ["x1+x2=4", "x1+3x2>=6", "x1<=3"] .maximize) fun report =>
          report.solution.objective = 11 ∧ p.objectiveAt report.solution.assignment = 11 := by
    decide +kernel
  exact ⟨p, report, read, solved, value, same, abs_objective_sub_le_of_solve read truly solved⟩

/-! ### Values that do not account for the objective -/

/-- The objective value is that of the objective at the values up to a millionth of its scale. -/
def Problem.Balances (p : Problem Rat) (s : Solution Rat) : Prop :=
  |s.objective - p.objectiveAt s.assignment| ≤ 1 / 1000000 * (1 + |s.objective| +
    (p.objective.terms.map fun term => |term.coefficient| * |s.assignment term.name|).sum)

instance instDecidableBalances (p : Problem Rat) (s : Solution Rat) : Decidable (p.Balances s) :=
  inferInstanceAs (Decidable (_ ≤ _))

def Unbalanced (condition : Problem Rat → Prop) (objective : String)
    (constraints : List String) : Prop :=
  Yields (Problem.ofTexts objective constraints .maximize) fun p =>
    (∀ c ∈ p.constraints, 0 ≤ c.bound) ∧ condition p ∧
      Yields (({} : Solver).solve objective constraints .maximize) fun report =>
        ¬ p.Balances report.solution

instance instDecidableUnbalanced (condition : Problem Rat → Prop) [DecidablePred condition]
    (objective : String) (constraints : List String) :
    Decidable (Unbalanced condition objective constraints) :=
  inferInstanceAs (Decidable (Yields _ _))

/-- Reports whose values do not have the objective value where in turn one of the conditions fails,
and where none does but a large coefficient magnifies a value that counts as zero. -/
theorem unequal_objectives :
    Unbalanced (fun p => ¬ p.FindsUnits 100 ∧ p.FindsPriced 100 ∧ p.KeepsRows 100)
      "1000000000000x1+501x2" ["x1+0.0000000005x2<=0", "x2<=1"] ∧
    Unbalanced (fun p => p.FindsUnits 100 ∧ ¬ p.FindsPriced 100 ∧ p.KeepsRows 100)
      "0.0000000004x1+0.0000000012x2" ["2x1+2x2<=2000000000000"] ∧
    Unbalanced (fun p => p.FindsUnits 100 ∧ p.FindsPriced 100 ∧ ¬ p.KeepsRows 100)
      "x1+x2" ["x1-10x2<=1", "0.0000000005x1+x2<=1"] ∧
    Unbalanced (·.ReadsTruly 100) "10000000000x1" ["10000000000x1<=5"] := by
  decide +kernel

end Simplex
