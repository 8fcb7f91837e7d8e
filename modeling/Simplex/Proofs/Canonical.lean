import Simplex.Proofs.Detection
import Simplex.Proofs.Phases
import Simplex.Proofs.StartingBasis

/-!
# Descents on exact bases

A priced basis survives every chosen pivot (`Canonical.chosen`), and right-hand sides stay
nonnegative as long as the ratio test passes over no row with a smaller ratio
(`IsFeasible.chosen`). Both hold of the tableau that phase 1 begins with.
-/

namespace Simplex

namespace Tableau

structure Canonical (t : Tableau Rat) (basis : Nat → Option Nat) : Prop where
  isBasis : t.IsBasis basis
  isPriced : t.IsPriced basis

/-- No right-hand side of a constraint row is negative. -/
def IsFeasible (t : Tableau Rat) : Prop := ∀ i < t.constraintCount, 0 ≤ t.rhs i

instance instDecidableIsFeasible (t : Tableau Rat) : Decidable t.IsFeasible :=
  inferInstanceAs (Decidable (∀ i < t.constraintCount, 0 ≤ t.rhs i))

/-- No row that the ratio test passes over has a smaller ratio than the row it takes. -/
def SkipsSafely (t : Tableau Rat) (step : Step Rat) : Prop :=
  ∀ i < t.constraintCount, t.PassesOver step.column i →
    t.rhs step.row / t.entry step.row step.column ≤ t.rhs i / t.entry i step.column

instance instDecidableSkipsSafely (t : Tableau Rat) (step : Step Rat) :
    Decidable (t.SkipsSafely step) :=
  inferInstanceAs (Decidable (∀ i < t.constraintCount, t.PassesOver step.column i →
    t.rhs step.row / t.entry step.row step.column ≤ t.rhs i / t.entry i step.column))

section
variable {t : Tableau Rat} {step : Step Rat} {basis : Nat → Option Nat}

theorem Chosen.nonzero (chosen : t.Chosen step) : t.entry step.row step.column ≠ 0 :=
  (positive_of_leavingRow chosen.leaving).2.1.ne'

theorem Canonical.chosen (chosen : t.Chosen step) (h : t.Canonical basis) :
    step.result.Canonical (Function.update basis step.row (some step.column)) := by
  rw [chosen.result_eq]
  exact ⟨h.isBasis.pivot chosen.row_lt chosen.column_lt chosen.nonzero,
    h.isPriced.pivot h.isBasis chosen.row_lt chosen.column_lt chosen.nonzero⟩

theorem rhs_pivot (row column : Nat) {i : Nat} (hi : i ≤ t.constraintCount) :
    (t.pivot row column).rhs i = if i = row then t.rhs row / t.entry row column
      else t.rhs i - t.entry i column * (t.rhs row / t.entry row column) :=
  entry_pivot row column hi t.layout.rhs_lt_columns

/-- A right-hand side stays nonnegative if its row binds the entering column no earlier than the
leaving row. -/
theorem IsFeasible.rhs_pivot_nonneg (h : t.IsFeasible) {row column i : Nat}
    (bound : row < t.constraintCount) (positive : 0 < t.entry row column)
    (hi : i < t.constraintCount)
    (least : 0 < t.entry i column →
      t.rhs row / t.entry row column ≤ t.rhs i / t.entry i column) :
    0 ≤ (t.pivot row column).rhs i := by
  have ratio : 0 ≤ t.rhs row / t.entry row column := div_nonneg (h row bound) positive.le
  rw [rhs_pivot _ _ hi.le]
  split
  · exact ratio
  · by_cases rising : 0 < t.entry i column
    · have first := least rising
      rw [le_div_iff₀ rising] at first
      linarith
    · have falling := mul_nonneg (neg_nonneg.mpr (not_lt.mp rising)) ratio
      have before := h i hi
      linarith

theorem IsFeasible.chosen (chosen : t.Chosen step) (safe : t.SkipsSafely step)
    (h : t.IsFeasible) : step.result.IsFeasible := by
  obtain ⟨bound, positive, -⟩ := positive_of_leavingRow chosen.leaving
  intro i hi
  rw [chosen.result_eq, constraintCount_pivot] at hi
  rw [chosen.result_eq]
  refine h.rhs_pivot_nonneg bound positive hi fun rising => ?_
  by_cases passed : t.PassesOver step.column i
  · exact safe i hi passed
  · exact ratio_le_of_leavingRow chosen.leaving hi rising passed

def IsFull (t : Tableau Rat) (basis : Nat → Option Nat) : Prop :=
  ∀ i < t.constraintCount, (basis i).isSome

theorem Canonical.solves_basicPoint (h : t.Canonical basis) (full : t.IsFull basis) :
    t.Solves (t.basicPoint basis) := by
  refine Tableau.solves_basicPoint h.isBasis fun i hi none => ?_
  have some := full i hi
  rw [none] at some
  nomatch some

/-- A row with an exact unit column that costs nothing has a column that is found basic. -/
theorem Canonical.exists_basicColumn (h : t.Canonical basis) (full : t.IsFull basis) {i : Nat}
    (hi : i < t.constraintCount) : ∃ j, t.basicColumn i = some j := by
  obtain ⟨j, basic⟩ := Option.isSome_iff_exists.mp (full i hi)
  obtain ⟨first, -, found⟩ :=
    (h.isBasis.unitAt hi basic).exists_basicColumn hi (h.isPriced i hi j basic)
  exact ⟨first, found⟩

/-- A row with an artificial column that is found basic has an artificial basic column. -/
theorem Canonical.artificial_of_artificialRows (h : t.Canonical basis) (full : t.IsFull basis)
    {row : Nat} (member : row ∈ t.artificialRows) :
    ∃ j, basis row = some j ∧ t.layout.isArtificial j = true := by
  have hr := lt_of_artificialRows member
  obtain ⟨column, place, kind⟩ := basic_of_artificialRows member
  obtain ⟨j, basic⟩ := Option.isSome_iff_exists.mp (full row hr)
  have unit := h.isBasis.unitAt hr basic
  -- An exact column is found unless one in front of it is.
  obtain ⟨first, le, detected⟩ := unit.exists_basicColumn hr (h.isPriced row hr j basic)
  rw [getElem?_basis hr, detected] at place
  obtain rfl := Option.some.inj (Option.some.inj place)
  have after := of_decide_eq_true (Bool.and_eq_true_iff.mp kind).1
  exact ⟨j, basic, Bool.and_eq_true_iff.mpr
    ⟨decide_eq_true (after.trans le), decide_eq_true unit.1⟩⟩

theorem Canonical.ne_none_of_mem_basis (h : t.Canonical basis) (full : t.IsFull basis)
    {basic : Option Nat} (member : basic ∈ t.basis) : basic ≠ none := by
  obtain ⟨i, inside, rfl⟩ := List.mem_map.mp member
  obtain ⟨j, found⟩ := h.exists_basicColumn full (List.mem_range.mp inside)
  intro none
  exact Option.some_ne_none j (found.symm.trans none)

theorem exists_canonical_descend (h : t.Canonical basis) (phase : Phase) (limit : Nat) :
    ∃ basis', (t.reached (t.descend phase limit).steps).Canonical basis' :=
  reached_of_along (Q := fun u => ∃ basis', u.Canonical basis')
    (fun _ _ chosen ⟨_, before⟩ => ⟨_, before.chosen chosen⟩) (t.descend_along phase limit)
    ⟨basis, h⟩

theorem IsFull.chosen (chosen : t.Chosen step) (h : t.IsFull basis) :
    step.result.IsFull (Function.update basis step.row (some step.column)) := by
  intro i hi
  rw [chosen.result_eq, constraintCount_pivot] at hi
  by_cases same : i = step.row
  · rw [same, Function.update_self]
    rfl
  · rw [Function.update_of_ne same]
    exact h i hi

theorem exists_full_descend (h : t.Canonical basis) (full : t.IsFull basis) (phase : Phase)
    (limit : Nat) : ∃ basis', (t.reached (t.descend phase limit).steps).Canonical basis' ∧
      (t.reached (t.descend phase limit).steps).IsFull basis' :=
  reached_of_along (Q := fun u => ∃ basis', u.Canonical basis' ∧ u.IsFull basis')
    (fun _ _ chosen ⟨_, canonical, full⟩ => ⟨_, canonical.chosen chosen, full.chosen chosen⟩)
    (t.descend_along phase limit) ⟨basis, h, full⟩

theorem IsFeasible.descend (h : t.IsFeasible) (phase : Phase) (limit : Nat)
    (safe : t.Along SkipsSafely (t.descend phase limit).steps) :
    (t.reached (t.descend phase limit).steps).IsFeasible :=
  reached_of_along (Q := IsFeasible) (fun _ _ both before => before.chosen both.1 both.2)
    ((t.descend_along phase limit).and safe) h

theorem canonical_recosted (h : t.IsBasis t.basicColumn) (costs : List Rat) :
    (t.recosted costs).Canonical t.basicColumn := by
  have costed : (t.withObjective costs).IsBasis t.basicColumn :=
    h.congr rfl (constraintCount_withObjective ..)
      fun _ hi _ hj => entry_withObjective_of_lt costs hi (Nat.lt_succ_of_lt hj)
  have basics : t.basis = (t.withObjective costs).basicsOf t.basicColumn := by
    rw [basicsOf, constraintCount_withObjective]
    rfl
  rw [recosted, basics]
  exact ⟨costed.priceOut _, isPriced_priceOut costed⟩

theorem rhs_recosted {costs : List Rat} {i : Nat} (hi : i < t.constraintCount) :
    (t.recosted costs).rhs i = t.rhs i := by
  rw [recosted, rhs_priceOut _ (by simpa using hi)]
  exact entry_withObjective_of_lt costs hi t.layout.rhs_lt_columns

end

end Tableau

namespace Problem

variable {p : Problem Rat}

theorem canonical_phaseOneStart {first : Tableau Rat}
    (h : p.phaseOneStart .carryBasis = .ok first) :
    first.Canonical p.startBasis ∧ first.IsFull p.startBasis := by
  obtain rfl := eq_firstTableau h
  have basis := p.isBasis_tableau .one
  rw [firstTableau, startingBasis_tableau]
  refine ⟨⟨basis.priceOut _, Tableau.isPriced_priceOut basis⟩, fun i hi => ?_⟩
  rw [Tableau.priceOut, Tableau.constraintCount_priceFrom, constraintCount_tableau] at hi
  rw [startBasis_eq hi]
  rfl

theorem isFeasible_phaseOneStart {first : Tableau Rat}
    (h : p.phaseOneStart .carryBasis = .ok first) (bounds : ∀ c ∈ p.constraints, 0 ≤ c.bound) :
    first.IsFeasible := by
  obtain rfl := eq_firstTableau h
  intro i hi
  rw [firstTableau, Tableau.priceOut, Tableau.constraintCount_priceFrom] at hi
  rw [firstTableau, Tableau.rhs_priceOut _ hi]
  rw [constraintCount_tableau] at hi
  rw [rhs_tableau .one hi]
  exact bounds _ (List.getElem_mem hi)

end Problem

end Simplex
