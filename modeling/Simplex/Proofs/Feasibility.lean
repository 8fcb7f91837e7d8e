import Simplex.Proofs.Canonical
import Simplex.Proofs.Readout

/-!
# Feasibility of the reported solution

If phase 1 ends with no artificial sum at all, its basic solution is feasible
(`settled_of_phaseOneEnd`). The handover keeps the right-hand sides nonnegative
(`Settled.isFeasible_handedOver`), and so does phase 2. The solution that is read in the end is then
feasible up to what reading it chops off (`feasible_of_solve`). None of the conditions in
`RunsExactly` can be left out (`infeasible_reports`).
-/

namespace Simplex

namespace Problem

variable {p : Problem Rat} {limit : Nat}

/-- Every pivot of phase 1 passes over no row with a smaller ratio. -/
def PhaseOneSafe (p : Problem Rat) (limit : Nat) : Prop :=
  OnOk (p.phaseOneStart .carryBasis) fun first =>
    first.Along Tableau.SkipsSafely (first.descend .one limit).steps

instance instDecidablePhaseOneSafe (p : Problem Rat) (limit : Nat) :
    Decidable (p.PhaseOneSafe limit) := inferInstanceAs (Decidable (OnOk _ _))

def NoRemainder (p : Problem Rat) (limit : Nat) : Prop :=
  OnOk (p.phaseOneEnd .carryBasis limit) fun last => last.objectiveValue = 0

instance instDecidableNoRemainder (p : Problem Rat) (limit : Nat) :
    Decidable (p.NoRemainder limit) := inferInstanceAs (Decidable (OnOk _ _))

def PhaseTwoSafe (p : Problem Rat) (limit : Nat) : Prop :=
  OnOk (p.phaseTwoStart .carryBasis limit) fun second =>
    second.Along Tableau.SkipsSafely (second.descend .two limit).steps

instance instDecidablePhaseTwoSafe (p : Problem Rat) (limit : Nat) :
    Decidable (p.PhaseTwoSafe limit) := inferInstanceAs (Decidable (OnOk _ _))

/-- The basic columns found in the tableau that the solution is read from are exact, and rows
without one are empty. -/
def ReadsExactly (p : Problem Rat) (limit : Nat) : Prop :=
  OnOk (p.phaseTwoEnd .carryBasis limit) fun t => t.IsBasis t.basicColumn

instance instDecidableReadsExactly (p : Problem Rat) (limit : Nat) :
    Decidable (p.ReadsExactly limit) := inferInstanceAs (Decidable (OnOk _ _))

/-- Nothing in a run is decided within the tolerance only. -/
structure RunsExactly (p : Problem Rat) (limit : Nat) : Prop where
  phaseOneSafe : p.PhaseOneSafe limit
  noRemainder : p.NoRemainder limit
  phaseTwoSafe : p.PhaseTwoSafe limit
  readsExactly : p.ReadsExactly limit

instance instDecidableRunsExactly (p : Problem Rat) (limit : Nat) :
    Decidable (p.RunsExactly limit) :=
  decidable_of_iff (p.PhaseOneSafe limit ∧ p.NoRemainder limit ∧ p.PhaseTwoSafe limit ∧
    p.ReadsExactly limit)
    ⟨fun ⟨one, zero, two, exact⟩ => ⟨one, zero, two, exact⟩,
      fun ⟨one, zero, two, exact⟩ => ⟨one, zero, two, exact⟩⟩

/-! ### Phase 1 -/

/-- A basis whose basic solution solves the program, without artificial part. -/
structure Settled (p : Problem Rat) (last : Tableau Rat) (basis : Nat → Option Nat) : Prop where
  canonical : last.Canonical basis
  full : last.IsFull basis
  feasible : last.IsFeasible
  solved : p.System (last.basicPoint basis)
  real : ∀ j, (Layout.ofProblem p).artificialStart ≤ j → last.basicPoint basis j = 0

theorem settled_of_phaseOneEnd {last : Tableau Rat} (bounds : ∀ c ∈ p.constraints, 0 ≤ c.bound)
    (ended : p.phaseOneEnd .carryBasis limit = .ok last) (safe : p.PhaseOneSafe limit)
    (zero : last.objectiveValue = 0) : ∃ basis, p.Settled last basis := by
  obtain ⟨layout, count, represents, -⟩ := represents_phaseOneEnd ended
  obtain ⟨first, started, descended⟩ := except_bind_ok ended
  obtain ⟨canonical, full⟩ := canonical_phaseOneStart started
  obtain ⟨basis, canonical, full⟩ := Tableau.exists_full_descend canonical full .one limit
  have feasible := (isFeasible_phaseOneStart started bounds).descend .one limit
    (safe first started)
  rw [← (Tableau.optimal_of_descend descended).1] at canonical full feasible
  have solved := (represents.solves_iff _).mp (canonical.solves_basicPoint full)
  refine ⟨basis, canonical, full, feasible, solved, fun j hj => ?_⟩
  -- The artificial columns are nonnegative and add up to the remainder.
  have sum := represents.measure_eq _ solved
  rw [Tableau.residual_basicPoint canonical.isBasis canonical.isPriced, zero, neg_zero] at sum
  by_cases inside : j < (Layout.ofProblem p).rhs
  · have parts := (Finset.sum_eq_zero_iff_of_nonneg
      fun k _ => Tableau.spread_nonneg feasible k).mp sum.symm
    exact parts j (Finset.mem_Ico.mpr ⟨hj, inside⟩)
  · refine Tableau.spread_nonbasic _ fun i hi basic => ?_
    have bound := (canonical.isBasis.unitAt hi basic).1
    rw [layout] at bound
    exact inside bound

theorem Settled.feasibleAt {last : Tableau Rat} {basis : Nat → Option Nat}
    (h : p.Settled last basis) : p.FeasibleAt (p.valuesAt (last.basicPoint basis)) :=
  feasibleAt_valuesAt h.solved (fun j _ => Tableau.spread_nonneg h.feasible j)
    fun j hj _ => h.real j hj

/-! ### The handover -/

theorem Settled.rhs_artificialRow {last : Tableau Rat} {basis : Nat → Option Nat}
    (h : p.Settled last basis) (layout : last.layout = Layout.ofProblem p) {row : Nat}
    (member : row ∈ last.artificialRows) : last.rhs row = 0 := by
  have hr := Tableau.lt_of_artificialRows member
  obtain ⟨j, basic, kind⟩ := h.canonical.artificial_of_artificialRows h.full member
  rw [layout] at kind
  have value := h.real j (of_decide_eq_true (Bool.and_eq_true_iff.mp kind).1)
  rwa [Tableau.basicPoint, Tableau.spread_basic h.canonical.isBasis _ hr basic] at value

theorem Settled.isFeasible_handedOver {last carried : Tableau Rat} {basis : Nat → Option Nat}
    (h : p.Settled last basis) (layout : last.layout = Layout.ofProblem p)
    (handed : last.handedOver = .ok carried) : carried.IsFeasible := by
  have kept : ∀ (s : Tableau Rat) (row column : Nat), row ∈ last.artificialRows →
      row < s.constraintCount → s.replacement row = some column →
      (s.constraintCount = last.constraintCount ∧
        ∀ i < last.constraintCount, s.rhs i = last.rhs i) →
      (s.pivot row column).constraintCount = last.constraintCount ∧
        ∀ i < last.constraintCount, (s.pivot row column).rhs i = last.rhs i := by
    -- A row that is driven out has a zero on its right, so no right-hand side changes.
    rintro s row column member bound - ⟨count, same⟩
    refine ⟨by rw [Tableau.constraintCount_pivot, count], fun i hi => ?_⟩
    have zero : s.rhs row = 0 := by
      rw [same row (count ▸ bound), h.rhs_artificialRow layout member]
    have hi' : i ≤ s.constraintCount := by omega
    exact (Tableau.entry_pivot_of_zero column zero hi' s.layout.rhs_lt_columns).trans (same i hi)
  obtain ⟨driven, outcome, count, same⟩ :=
    Tableau.handedOver_induction kept ⟨rfl, fun _ _ => rfl⟩
  rw [handed] at outcome
  obtain rfl := Except.ok.inj outcome
  intro i hi
  rw [Tableau.constraintCount_dropArtificial] at hi
  rw [Tableau.rhs_dropArtificial hi.le]
  rw [count] at hi
  rw [same i hi]
  exact h.feasible i hi

/-! ### Phase 2 -/

theorem RunsExactly.feasibleAt {t : Tableau Rat} (exact : p.RunsExactly limit)
    (bounds : ∀ c ∈ p.constraints, 0 ≤ c.bound)
    (ended : p.phaseTwoEnd .carryBasis limit = .ok t) :
    (∀ j, 0 ≤ t.basicPoint t.basicColumn j) ∧ p.FeasibleAt (p.valuesAt
      (Tableau.realPart (Layout.ofProblem p) (t.basicPoint t.basicColumn))) := by
  obtain ⟨second, started, descended⟩ := except_bind_ok ended
  obtain ⟨last, carried, first, handed, rfl⟩ := handover_of_phaseTwoStart started
  obtain ⟨rfl, -⟩ := Tableau.optimal_of_descend descended
  obtain ⟨layout, -, represents, -⟩ := represents_phaseOneEnd first
  obtain ⟨basis, settled⟩ :=
    settled_of_phaseOneEnd bounds first exact.phaseOneSafe (exact.noRemainder last first)
  have pricing := pricing_handover layout represents handed
  have solvable : p.System (Tableau.realPart (Layout.ofProblem p) (last.basicPoint basis)) := by
    rw [Tableau.realPart_eq settled.real]
    exact settled.solved
  have feasible : (carried.recosted p.costs).IsFeasible := by
    intro i hi
    rw [Tableau.constraintCount_recosted] at hi
    rw [Tableau.rhs_recosted hi]
    exact settled.isFeasible_handedOver layout handed i hi
  have feasible' := feasible.descend .two limit (exact.phaseTwoSafe _ started)
  have represents' := (pricing.descend .two limit).represents
  -- The basis of the descent need not be the one found in the end, but an empty row of a solvable
  -- tableau has a zero on its right whatever the basis.
  have found := exact.readsExactly _ ended
  have solved := Tableau.solves_basicPoint found fun i hi none =>
    found.rhs_eq_zero ((represents'.solves_iff _).mpr solvable) hi none
  refine ⟨fun j => Tableau.spread_nonneg feasible' j,
    feasibleAt_valuesAt ((represents'.solves_iff _).mp solved) ?_ ?_⟩
  · intro j hj
    rw [Tableau.realPart, if_pos hj]
    exact Tableau.spread_nonneg feasible' j
  · intro j hj _
    rw [Tableau.realPart, if_neg hj.not_gt]

end Problem

/-- The solution that the default solver reports is feasible if the run is exact, up to the
tolerance in each variable. -/
theorem feasible_of_solve {objective : String} {constraints : List String} {direction : Direction}
    {limit : Nat} {p : Problem Rat} {report : Report Rat}
    (read : Problem.ofTexts objective constraints direction = .ok p)
    (bounds : ∀ c ∈ p.constraints, 0 ≤ c.bound) (exact : p.RunsExactly limit)
    (solved : ({ maxIterations := limit } : Solver).solve objective constraints direction =
      .ok report) :
    (∀ q ∈ report.solution.values, 0 ≤ q.2) ∧
      ∀ c ∈ p.constraints, c.relation.HoldsWithin (Scalar.tolerance * p.weightOf c)
        (c.leftAt report.solution.assignment) c.bound := by
  obtain ⟨t, ended, found⟩ := Solver.tableau_of_solve read solved
  obtain ⟨nonneg, feasible⟩ := exact.feasibleAt bounds ended
  have detected := exact.readsExactly t ended
  have same : report.solution = t.solution p .basicRhs := (Except.ok.inj found).symm
  rw [same]
  constructor
  · intro q member
    obtain ⟨j, value⟩ := Problem.value_of_solution member
    rw [value, Tableau.basicValue_eq detected]
    exact Tableau.chopped_nonneg (nonneg j)
  · intro c hc
    refine holdsWithin_of_close feasible (fun name member => ?_) hc
    obtain ⟨j, hj, rfl⟩ := List.getElem_of_mem member
    have inside : j < (Layout.ofProblem p).artificialStart :=
      lt_of_lt_of_le hj (Layout.ofProblem p).decision_le_artificialStart
    rw [Problem.assignment_solution t hj, Problem.valuesAt_getElem hj, Tableau.realPart,
      if_pos inside, Tableau.basicValue_eq detected]
    exact Tableau.abs_chopped_sub_le _

theorem feasible_of_solve_mixed : ∃ (p : Problem Rat) (report : Report Rat),
    Problem.ofTexts "3x1+2x2" ["x1+x2=4", "x1+3x2>=6", "x1<=3"] .maximize = .ok p ∧
      ({ maxIterations := 100 } : Solver).solve "3x1+2x2"
        ["x1+x2=4", "x1+3x2>=6", "x1<=3"] .maximize = .ok report ∧
      (∀ q ∈ report.solution.values, 0 ≤ q.2) ∧
      ∀ c ∈ p.constraints, c.relation.HoldsWithin (Scalar.tolerance * p.weightOf c)
        (c.leftAt report.solution.assignment) c.bound := by
  obtain ⟨p, read, bounds, exact⟩ : Yields
      (Problem.ofTexts "3x1+2x2" ["x1+x2=4", "x1+3x2>=6", "x1<=3"] .maximize)
      fun p : Problem Rat => (∀ c ∈ p.constraints, 0 ≤ c.bound) ∧ p.RunsExactly 100 := by
    decide +kernel
  obtain ⟨report, solved, -⟩ : Yields
      (({ maxIterations := 100 } : Solver).solve "3x1+2x2"
        ["x1+x2=4", "x1+3x2>=6", "x1<=3"] .maximize)
      fun report : Report Rat => report.solution.values = [("x1", 3), ("x2", 1)] := by
    decide +kernel
  exact ⟨p, report, read, solved, feasible_of_solve read bounds exact solved⟩

/-! ### Inexact runs -/

/-- A solution that is nonnegative and satisfies each constraint up to a millionth of its scale. -/
def Problem.Accepts (p : Problem Rat) (s : Solution Rat) : Prop :=
  (∀ q ∈ s.values, 0 ≤ q.2) ∧ ∀ c ∈ p.constraints, c.relation.HoldsWithin
    (1 / 1000000 * (1 + |c.bound| +
      (p.names.map fun name => |c.coefficientOf name| * |s.assignment name|).sum))
    (c.leftAt s.assignment) c.bound

instance instDecidableAccepts (p : Problem Rat) (s : Solution Rat) : Decidable (p.Accepts s) :=
  inferInstanceAs (Decidable (_ ∧ _))

def Misreports (condition : Problem Rat → Prop) (objective : String) (constraints : List String)
    (direction : Direction) : Prop :=
  Yields (Problem.ofTexts objective constraints direction) fun p =>
    (∀ c ∈ p.constraints, 0 ≤ c.bound) ∧ condition p ∧
      Yields (({} : Solver).solve objective constraints direction) fun report =>
        ¬ p.Accepts report.solution

instance instDecidableMisreports (condition : Problem Rat → Prop) [DecidablePred condition]
    (objective : String) (constraints : List String) (direction : Direction) :
    Decidable (Misreports condition objective constraints direction) :=
  inferInstanceAs (Decidable (Yields _ _))

/-- Reports that are not acceptable where in turn one of the conditions fails, and where none does but
a large coefficient magnifies a value that counts as zero. -/
theorem infeasible_reports :
    Misreports (fun p => ¬ p.PhaseOneSafe 100 ∧ p.NoRemainder 100 ∧ p.PhaseTwoSafe 100 ∧
      p.ReadsExactly 100) "x1" ["x1=1000000000000", "0.0000000001x1<=1"] .maximize ∧
    Misreports (fun p => p.PhaseOneSafe 100 ∧ ¬ p.NoRemainder 100 ∧ p.PhaseTwoSafe 100 ∧
      p.ReadsExactly 100) "x1" ["-0.01x1=0.0000000005"] .minimize ∧
    Misreports (fun p => p.PhaseOneSafe 100 ∧ p.NoRemainder 100 ∧ ¬ p.PhaseTwoSafe 100 ∧
      p.ReadsExactly 100) "x1" ["2x1<=1000000000000", "0.0000000001x1<=1"] .maximize ∧
    Misreports (fun p => p.PhaseOneSafe 100 ∧ p.NoRemainder 100 ∧ p.PhaseTwoSafe 100 ∧
      ¬ p.ReadsExactly 100) "x1" ["-0.0000000005x1=0", "2x1<=1000000000000"] .maximize ∧
    Misreports (·.RunsExactly 100) "x1" ["10000000000x1=5"] .maximize := by
  decide +kernel

end Simplex
