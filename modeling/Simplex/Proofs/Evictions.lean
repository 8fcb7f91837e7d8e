import Simplex.Proofs.ArtificialSum
import Simplex.Proofs.RatioTest

/-!
# What driving artificial variables out costs

An artificial variable that is still basic when phase 1 ends has a value between zero and the
artificial sum (`rhs_le_of_artificialRows`). The pivot that drives it out moves the right-hand sides
by no more than its `jump`, so that all of them together move them by no more than `totalJump`, and
not at all if the sum is zero (`rhs_of_carryBasis`). The jump has no bound of its own: the entry it
divides by may be as small as the tolerance (`infeasible_handover`).
-/

namespace Simplex

namespace Tableau

/-- The value at which `column` becomes basic in `row`, times the most that a right-hand side moves
for a unit of it. -/
def jump (t : Tableau Rat) (row column : Nat) : Rat :=
  |t.ratio column row| * (1 + t.columnScale column)

/-- The jumps of the pivots among the evictions. -/
def totalJump (t : Tableau Rat) : List Eviction → Rat
  | [] => 0
  | .swapped row column :: rest => t.jump row column + (t.pivot row column).totalJump rest
  | .redundant _ :: rest => t.totalJump rest

/-! ### Pivots -/

section
variable {t driven : Tableau Rat} {row column i : Nat} {rows : List Nat}

theorem abs_rhs_pivot_sub_le (hr : row < t.constraintCount) (nonzero : t.entry row column ≠ 0)
    (hi : i < t.constraintCount) : |(t.pivot row column).rhs i - t.rhs i| ≤ t.jump row column := by
  have scale := (isGreatest_columnScale (Nat.zero_lt_of_lt hr) column).2
  have nonneg := abs_nonneg (t.ratio column row)
  rw [rhs_pivot row column hi.le]
  split
  · rename_i same
    -- In the pivot row the new value takes the place of the old one, its entry times as large.
    have before : t.rhs i = t.ratio column row * t.entry row column := by
      rw [same, ratio, div_mul_cancel₀ _ nonzero]
    have moved : |1 - t.entry row column| ≤ 1 + t.columnScale column :=
      (abs_sub _ _).trans (by
        rw [abs_one]
        exact add_le_add_right (scale ⟨row, hr, rfl⟩) 1)
    calc |t.ratio column row - t.rhs i|
      _ = |t.ratio column row| * |1 - t.entry row column| := by
        rw [before, ← abs_mul, mul_sub, mul_one]
      _ ≤ t.jump row column := mul_le_mul_of_nonneg_left moved nonneg
  · have moved : |t.entry i column| ≤ 1 + t.columnScale column := by
      have within := scale ⟨i, hi, rfl⟩
      linarith
    calc |t.rhs i - t.entry i column * t.ratio column row - t.rhs i|
      _ = |t.ratio column row| * |t.entry i column| := by
        rw [sub_right_comm, sub_self, zero_sub, abs_neg, abs_mul, mul_comm]
      _ ≤ t.jump row column := mul_le_mul_of_nonneg_left moved nonneg

theorem abs_rhs_driveOut_sub_le (inside : ∀ row ∈ rows, row < t.constraintCount)
    (outcome : (t.driveOut rows).outcome = .ok driven) (hi : i < t.constraintCount) :
    |driven.rhs i - t.rhs i| ≤ t.totalJump (t.driveOut rows).evictions := by
  induction rows generalizing t with
  | nil =>
    obtain rfl := Except.ok.inj outcome
    rw [sub_self, abs_zero]
    exact le_refl 0
  | cons row rest ih =>
    have bound := inside row List.mem_cons_self
    have later : ∀ row ∈ rest, row < t.constraintCount :=
      fun row' member => inside row' (List.mem_cons_of_mem row member)
    unfold driveOut at outcome ⊢
    cases found : t.replacement row with
    | none =>
      rw [found] at outcome
      exact ih later outcome hi
    | some column =>
      have width : column < t.layout.rhs :=
        lt_of_lt_of_le (replacement_spec found).1 t.layout.artificialStart_le_rhs
      have first := abs_rhs_pivot_sub_le bound (nonzero_of_replacement found) hi
      rw [found] at outcome
      dsimp only at outcome ⊢
      rw [Descent.checked_pivot bound width] at outcome ⊢
      have others := ih (t := t.pivot row column) (by simpa using later) outcome (by simpa using hi)
      calc |driven.rhs i - t.rhs i|
        _ ≤ |driven.rhs i - (t.pivot row column).rhs i| +
            |(t.pivot row column).rhs i - t.rhs i| := abs_sub_le _ _ _
        _ ≤ t.totalJump (.swapped row column ::
            ((t.pivot row column).driveOut rest).evictions) := by
          rw [totalJump, add_comm]
          exact add_le_add first others

/-- Rows with a zero on their right are driven out without a jump. -/
theorem totalJump_of_zero (inside : ∀ row ∈ rows, row < t.constraintCount)
    (zero : ∀ row ∈ rows, t.rhs row = 0) : t.totalJump (t.driveOut rows).evictions = 0 := by
  induction rows generalizing t with
  | nil => rfl
  | cons row rest ih =>
    have bound := inside row List.mem_cons_self
    have later : ∀ row ∈ rest, row < t.constraintCount :=
      fun row' member => inside row' (List.mem_cons_of_mem row member)
    have zeros : ∀ row ∈ rest, t.rhs row = 0 :=
      fun row' member => zero row' (List.mem_cons_of_mem row member)
    unfold driveOut
    cases found : t.replacement row with
    | none => exact ih later zeros
    | some column =>
      have width : column < t.layout.rhs :=
        lt_of_lt_of_le (replacement_spec found).1 t.layout.artificialStart_le_rhs
      have own := zero row List.mem_cons_self
      have kept : ∀ row' ∈ rest, (t.pivot row column).rhs row' = 0 := by
        intro row' member
        exact (entry_pivot_of_zero column own (later row' member).le
          t.layout.rhs_lt_columns).trans (zeros row' member)
      dsimp only
      rw [Descent.checked_pivot bound width]
      dsimp only
      rw [totalJump, ih (by simpa using later) kept, jump, ratio, own, zero_div, abs_zero, zero_mul,
        add_zero]

end

/-! ### The handover -/

theorem PhaseOneOn.rhs_le_of_artificialRows {p : Problem Rat} {t : Tableau Rat}
    {basis : Nat → Option Nat} (h : PhaseOneOn p t basis) (feasible : t.IsFeasible) {row : Nat}
    (member : row ∈ t.artificialRows) : 0 ≤ t.rhs row ∧ t.rhs row ≤ -t.objectiveValue := by
  have inside := lt_of_artificialRows member
  obtain ⟨j, basic, artificial⟩ := h.canonical.artificial_of_artificialRows h.full member
  have counted : row ∈ t.artificialBasics basis := by
    rw [artificialBasics, Finset.mem_filter, Finset.mem_range, basic, Option.any_some]
    exact ⟨inside, artificial⟩
  refine ⟨feasible row inside, ?_⟩
  rw [h.objectiveValue_eq, neg_neg]
  exact Finset.single_le_sum (f := t.rhs) (fun i among =>
    feasible i (Finset.mem_range.mp (Finset.mem_filter.mp among).1)) counted

end Tableau

namespace Problem

/-- From a feasible end of phase 1, each row whose artificial variable is driven out has a
right-hand side between zero and the artificial sum, which is within the tolerance. Driving them out
moves no right-hand side by more than the total jump, so that none falls below minus that, and none
moves if the sum is zero. -/
theorem rhs_of_carryBasis {p : Problem Rat} {limit : Nat} {last second : Tableau Rat}
    (ended : p.phaseOneEnd .carryBasis limit = .ok last) (feasible : last.IsFeasible)
    (carried : (last.carryBasis p).outcome = .ok second) :
    second.constraintCount = last.constraintCount ∧
    (-last.objectiveValue ≤ Scalar.tolerance ∧
      ∀ row ∈ last.artificialRows, 0 ≤ last.rhs row ∧ last.rhs row ≤ -last.objectiveValue) ∧
    (∀ i < second.constraintCount,
      |second.rhs i - last.rhs i| ≤ last.totalJump (last.carryBasis p).evictions ∧
      -last.totalJump (last.carryBasis p).evictions ≤ second.rhs i) ∧
    (last.objectiveValue = 0 → last.totalJump (last.carryBasis p).evictions = 0) := by
  obtain ⟨basis, final⟩ := getLast?_phaseOneRun ended
  have on := phaseOneOn_of_mem_run (List.mem_of_getLast? final)
  have rows : ∀ row ∈ last.artificialRows, 0 ≤ last.rhs row ∧ last.rhs row ≤ -last.objectiveValue :=
    fun row member => on.rhs_le_of_artificialRows feasible member
  have inside : ∀ row ∈ last.artificialRows, row < last.constraintCount :=
    fun row member => Tableau.lt_of_artificialRows member
  obtain ⟨-, failed⟩ | ⟨accepted, handed, handing, succeeded⟩ :=
    Tableau.carryBasis_cases (costs_fit_phaseOneEnd ended)
  · rw [failed] at carried
    cases carried
  obtain rfl := Except.ok.inj (succeeded.symm.trans carried)
  have evictions : (last.carryBasis p).evictions =
      (last.driveOut last.artificialRows).evictions := by
    unfold Tableau.carryBasis
    dsimp only
    rw [if_neg accepted]
  obtain ⟨driven, outcome, dropped⟩ := except_bind_ok handing
  obtain rfl := Except.ok.inj ((Tableau.checked_dropArtificial driven).symm.trans dropped)
  obtain ⟨_, outcome', count⟩ := Tableau.driveOut_induction inside
    (Q := fun s => s.constraintCount = last.constraintCount)
    (fun s row column _ _ _ same => by rw [Tableau.constraintCount_pivot, same]) rfl
  obtain rfl := Except.ok.inj (outcome.symm.trans outcome')
  have count' : (driven.dropArtificial.recosted p.costs).constraintCount =
      last.constraintCount := by
    rw [Tableau.constraintCount_recosted, Tableau.constraintCount_dropArtificial, count]
  rw [evictions]
  refine ⟨count', ⟨not_lt.mp accepted, rows⟩, fun i hi => ?_, fun zero => ?_⟩
  · rw [count'] at hi
    have same : (driven.dropArtificial.recosted p.costs).rhs i = driven.rhs i := by
      rw [Tableau.rhs_recosted (by rw [Tableau.constraintCount_dropArtificial, count]; exact hi),
        Tableau.rhs_dropArtificial (by rw [count]; exact hi.le)]
    have moved := Tableau.abs_rhs_driveOut_sub_le inside outcome hi
    rw [same]
    refine ⟨moved, ?_⟩
    have before := feasible i hi
    have fallen := (abs_le.mp moved).1
    linarith
  · refine Tableau.totalJump_of_zero inside fun row member => ?_
    obtain ⟨low, high⟩ := rows row member
    rw [zero, neg_zero] at high
    exact le_antisymm high low

/-- Two artificial variables of less than the tolerance, driven out one after the other. -/
theorem rhs_of_carryBasis_twoEvictions : ∃ (p : Problem Rat) (last second : Tableau Rat),
    Problem.ofTexts "x1+x2" ["-0.5x1=0.0000000005", "-x1-2x2=0.0000000001"] .maximize = .ok p ∧
      p.phaseOneEnd .carryBasis 100 = .ok last ∧ last.IsFeasible ∧
      (last.carryBasis p).outcome = .ok second ∧
      (last.carryBasis p).evictions = [.swapped 0 0, .swapped 1 1] ∧
      last.totalJump (last.carryBasis p).evictions = 67 / 20000000000 ∧
      second.rhs 0 = -1 / 1000000000 ∧ ∀ i < second.constraintCount,
        -67 / 20000000000 ≤ second.rhs i := by
  obtain ⟨p, read, last, ended, feasible, evictions, total, second, carried, value⟩ : Yields
      (Problem.ofTexts "x1+x2" ["-0.5x1=0.0000000005", "-x1-2x2=0.0000000001"] .maximize)
      fun p : Problem Rat => Yields (p.phaseOneEnd .carryBasis 100) fun last => last.IsFeasible ∧
        (last.carryBasis p).evictions = [.swapped 0 0, .swapped 1 1] ∧
        last.totalJump (last.carryBasis p).evictions = 67 / 20000000000 ∧
        Yields (last.carryBasis p).outcome fun second => second.rhs 0 = -1 / 1000000000 := by
    decide +kernel
  obtain ⟨-, -, bounds, -⟩ := rhs_of_carryBasis ended feasible carried
  refine ⟨p, last, second, read, ended, feasible, carried, evictions, total, value, fun i hi => ?_⟩
  have bound := (bounds i hi).2
  rw [total] at bound
  rwa [neg_div]

/-- A feasible program for which phase 1 ends feasible and phase 2 begins with a right-hand side far
below zero: the artificial variable is driven out by a column with a small negative entry. -/
theorem infeasible_handover : Yields (Problem.ofTexts "x1"
    ["-0.00000001x1+0.0000000005x2=0.0000000005"] .minimize) fun p : Problem Rat =>
      (∀ c ∈ p.constraints, 0 ≤ c.bound) ∧ p.FeasibleAt (fun x => if x = "x2" then 1 else 0) ∧
      Yields (p.phaseOneEnd .carryBasis 100) fun last => last.IsFeasible ∧
        Yields (last.carryBasis p).outcome fun second =>
          0 < second.constraintCount ∧ second.rhs 0 = -1 / 20 ∧
          ¬ ∀ i < second.constraintCount, -1 / 1000000 ≤ second.rhs i := by
  decide +kernel

end Problem

end Simplex
