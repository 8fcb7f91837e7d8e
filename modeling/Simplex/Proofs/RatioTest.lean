import Simplex.Proofs.Canonical

/-!
# The ratio test

The row that the ratio test takes is the topmost one of the least ratio among its candidates
(`first_of_leavingRow`). A pivot on it keeps right-hand sides nonnegative but for the rows that the
test passes over, and what such a row can lose is the threshold times the ratio
(`rhs_pivot_of_passesOver`); the objective value grows by the ratio times the reduced cost of the
entering column (`pivot_of_leavingRow`).
-/

namespace Simplex.Tableau

/-! ### The scale of a column -/

theorem foldl_scale_spec (entries : List Rat) (start : Rat) :
    let scale := entries.foldl (fun s a => if s < Scalar.abs a then Scalar.abs a else s) start
    start ≤ scale ∧ (∀ v ∈ entries, |v| ≤ scale) ∧
      (scale = start ∨ ∃ v ∈ entries, scale = |v|) := by
  induction entries generalizing start with
  | nil => exact ⟨le_refl _, List.forall_mem_nil _, Or.inl rfl⟩
  | cons v rest ih =>
    obtain ⟨above, bound, place⟩ := ih (if start < Scalar.abs v then Scalar.abs v else start)
    have next : start ≤ (if start < Scalar.abs v then Scalar.abs v else start) ∧
        |v| ≤ (if start < Scalar.abs v then Scalar.abs v else start) := by
      rw [scalar_abs]
      split
      · exact ⟨le_of_lt (by assumption), le_refl _⟩
      · exact ⟨le_refl _, not_lt.mp (by assumption)⟩
    refine ⟨next.1.trans above, List.forall_mem_cons.mpr ⟨next.2.trans above, bound⟩, ?_⟩
    rcases place with same | ⟨w, member, same⟩
    · rw [List.foldl_cons, same, scalar_abs]
      split
      · exact Or.inr ⟨v, List.mem_cons_self, rfl⟩
      · exact Or.inl rfl
    · exact Or.inr ⟨w, List.mem_cons_of_mem v member, same⟩

variable {t : Tableau Rat} {row column i : Nat}

/-- The scale of a column is the largest magnitude of its constraint entries. -/
theorem isGreatest_columnScale (some : 0 < t.constraintCount) (column : Nat) :
    IsGreatest {a | ∃ i < t.constraintCount, a = |t.entry i column|} (t.columnScale column) := by
  obtain ⟨nonneg, bound, place⟩ := foldl_scale_spec ((t.ratioPairs column).map Prod.fst) 0
  have entries : ∀ v, v ∈ (t.ratioPairs column).map Prod.fst ↔
      ∃ i < t.constraintCount, t.entry i column = v := by
    intro v
    simp [ratioPairs]
  have upper : ∀ i < t.constraintCount, |t.entry i column| ≤ t.columnScale column :=
    fun i hi => bound _ ((entries _).mpr ⟨i, hi, rfl⟩)
  refine ⟨?_, ?_⟩
  · rcases place with zero | ⟨v, member, same⟩
    · have first := upper 0 some
      rw [columnScale, scaleOf, zero] at first
      exact ⟨0, some, zero.trans (le_antisymm (abs_nonneg _) first)⟩
    · obtain ⟨i, hi, rfl⟩ := (entries v).mp member
      exact ⟨i, hi, same⟩
  · rintro _ ⟨i, hi, rfl⟩
    exact upper i hi

/-! ### The row it takes -/

/-- The right-hand side of a row in units of its entry in a column. -/
def ratio (t : Tableau Rat) (column row : Nat) : Rat := t.rhs row / t.entry row column

/-- A row that the ratio test looks at. -/
structure IsCandidate (t : Tableau Rat) (column row : Nat) : Prop where
  inside : row < t.constraintCount
  positive : 0 < t.entry row column
  above : Scalar.tolerance * t.columnScale column < t.entry row column

theorem IsCandidate.not_passesOver (h : t.IsCandidate column row) : ¬ t.PassesOver column row :=
  fun passed => passed.2 h.above

theorem isCandidate_of_leavingRow (h : t.leavingRow column = some row) :
    t.IsCandidate column row := by
  obtain ⟨inside, positive, above⟩ := positive_of_leavingRow h
  exact ⟨inside, positive, above⟩

/-- No candidate has a smaller ratio than the leaving row. -/
theorem IsCandidate.ratio_le (candidate : t.IsCandidate column i)
    (h : t.leavingRow column = some row) : t.ratio column row ≤ t.ratio column i :=
  ratio_le_of_leavingRow h candidate.inside candidate.positive candidate.not_passesOver

/-- A candidate above the leaving row has a larger ratio. -/
theorem first_of_leavingRow (h : t.leavingRow column = some row)
    (candidate : t.IsCandidate column i) (before : i < row) :
    t.ratio column row < t.ratio column i := by
  rcases least_of_leavingRow_search h with ⟨_, none, -⟩ | ⟨k, hk, same, -, -, first⟩
  · cases none
  · rw [Nat.zero_add] at same
    subst same
    have less := first i before
    rw [getElem_ratioPairs, getElem_ratioPairs] at less
    exact less candidate.positive candidate.above

/-! ### The pivot on it -/

theorem IsFeasible.ratio_nonneg (feasible : t.IsFeasible)
    (h : t.leavingRow column = some row) : 0 ≤ t.ratio column row := by
  obtain ⟨inside, positive, -⟩ := isCandidate_of_leavingRow h
  exact div_nonneg (feasible row inside) positive.le

theorem rhs_pivot_of_not_passesOver (feasible : t.IsFeasible) (h : t.leavingRow column = some row)
    (hi : i < t.constraintCount) (seen : ¬ t.PassesOver column i) :
    0 ≤ (t.pivot row column).rhs i := by
  obtain ⟨inside, positive, -⟩ := isCandidate_of_leavingRow h
  exact feasible.rhs_pivot_nonneg inside positive hi fun rising =>
    ratio_le_of_leavingRow h hi rising seen

/-- A row that the test passes over loses no more than the threshold times the ratio. -/
theorem rhs_pivot_of_passesOver (feasible : t.IsFeasible) (h : t.leavingRow column = some row)
    (hi : i < t.constraintCount) (passed : t.PassesOver column i) :
    -(Scalar.tolerance * t.columnScale column * t.ratio column row) ≤
      (t.pivot row column).rhs i := by
  have other : i ≠ row := by
    rintro rfl
    exact (isCandidate_of_leavingRow h).not_passesOver passed
  have small : t.entry i column ≤ Scalar.tolerance * t.columnScale column := not_lt.mp passed.2
  have lost := mul_le_mul_of_nonneg_right small (feasible.ratio_nonneg h)
  have before := feasible i hi
  rw [rhs_pivot row column hi.le, if_neg other]
  show _ ≤ t.rhs i - t.entry i column * t.ratio column row
  linarith

/-- The objective value rises by what the entering column costs, times what enters of it. -/
theorem objectiveValue_pivot (h : t.leavingRow column = some row)
    (entering : t.enteringColumn = some column) :
    (t.pivot row column).objectiveValue =
      t.objectiveValue + |t.entry t.objectiveRow column| * t.ratio column row := by
  obtain ⟨inside, -, -⟩ := isCandidate_of_leavingRow h
  have cost := (cost_of_enteringColumn entering).trans (neg_neg_of_pos tolerance_pos)
  rw [objectiveValue, objectiveRow_eq, constraintCount_pivot, rhs_pivot row column (le_refl _),
    if_neg inside.ne', objectiveRow_eq, abs_of_neg cost, objectiveValue, objectiveRow_eq, ratio]
  ring

theorem objectiveValue_lt_pivot (h : t.leavingRow column = some row)
    (entering : t.enteringColumn = some column) (positive : 0 < t.rhs row) :
    t.objectiveValue < (t.pivot row column).objectiveValue := by
  have cost := (cost_of_enteringColumn entering).trans (neg_neg_of_pos tolerance_pos)
  have gain : 0 < |t.entry t.objectiveRow column| * t.ratio column row :=
    mul_pos (abs_pos.mpr cost.ne) (div_pos positive (isCandidate_of_leavingRow h).positive)
  rw [objectiveValue_pivot h entering]
  exact lt_add_of_pos_right _ gain

/-- The ratio test takes the topmost row of the least ratio among its candidates. A pivot on it
leaves no right-hand side negative unless the row has a positive entry within the threshold, and
then not below minus the threshold times the ratio. If the column enters for its cost, the objective
value grows by that cost times the ratio. -/
theorem pivot_of_leavingRow (feasible : t.IsFeasible) (chosen : t.leavingRow column = some row) :
    IsGreatest {a | ∃ i < t.constraintCount, a = |t.entry i column|} (t.columnScale column) ∧
    (t.IsCandidate column row ∧ ∀ i, t.IsCandidate column i →
      t.ratio column row ≤ t.ratio column i ∧
      (i < row → t.ratio column row < t.ratio column i)) ∧
    (∀ i < t.constraintCount,
      if 0 < t.entry i column ∧ t.entry i column ≤ Scalar.tolerance * t.columnScale column then
        -(Scalar.tolerance * t.columnScale column * t.ratio column row) ≤
          (t.pivot row column).rhs i
      else 0 ≤ (t.pivot row column).rhs i) ∧
    (t.enteringColumn = some column →
      (t.pivot row column).objectiveValue =
        t.objectiveValue + |t.entry t.objectiveRow column| * t.ratio column row ∧
      (0 < t.rhs row → t.objectiveValue < (t.pivot row column).objectiveValue)) := by
  have candidate := isCandidate_of_leavingRow chosen
  refine ⟨isGreatest_columnScale (Nat.zero_lt_of_lt candidate.inside) column,
    ⟨candidate, fun i other => ⟨other.ratio_le chosen, first_of_leavingRow chosen other⟩⟩, ?_, ?_⟩
  · intro i hi
    split
    · rename_i small
      exact rhs_pivot_of_passesOver feasible chosen hi ⟨small.1, not_lt.mpr small.2⟩
    · rename_i large
      exact rhs_pivot_of_not_passesOver feasible chosen hi fun passed =>
        large ⟨passed.1, not_lt.mp passed.2⟩
  · intro entering
    exact ⟨objectiveValue_pivot chosen entering, objectiveValue_lt_pivot chosen entering⟩

/-- A tie between two rows under one whose small entry is passed over though it binds first. -/
def tiedRows : Tableau Rat :=
  ofFn { decision := 1, slack := 4, surplus := 0, artificial := 0 } 4 fun i j =>
    (([[1 / 2000000000, 1, 0, 0, 0, 0], [1, 0, 1, 0, 0, 5], [-2, 0, 0, 1, 0, 1],
      [2, 0, 0, 0, 1, 10], [-3, 0, 0, 0, 0, 7]].getD i []).getD j 0)

theorem pivot_of_leavingRow_tie :
    tiedRows.IsFeasible ∧ tiedRows.leavingRow 0 = some 1 ∧ tiedRows.ratio 0 1 = 5 ∧
      tiedRows.columnScale 0 = 2 ∧ (tiedRows.pivot 1 0).rhs 0 < 0 ∧
      -(Scalar.tolerance * 2 * 5) ≤ (tiedRows.pivot 1 0).rhs 0 ∧
      (tiedRows.pivot 1 0).objectiveValue = 7 + 3 * 5 := by
  have feasible : tiedRows.IsFeasible := by decide +kernel
  have chosen : tiedRows.leavingRow 0 = some 1 := by decide +kernel
  have entering : tiedRows.enteringColumn = some 0 := by decide +kernel
  have ratio : tiedRows.ratio 0 1 = 5 := by decide +kernel
  have scale : tiedRows.columnScale 0 = 2 := by decide +kernel
  have below : (tiedRows.pivot 1 0).rhs 0 < 0 := by decide +kernel
  obtain ⟨-, -, bounds, grows⟩ := pivot_of_leavingRow feasible chosen
  obtain ⟨grown, -⟩ := grows entering
  have bound := bounds 0 (by decide +kernel)
  have cost : |tiedRows.entry tiedRows.objectiveRow 0| = 3 := by decide +kernel
  have value : tiedRows.objectiveValue = 7 := by decide +kernel
  rw [if_pos (by decide +kernel), ratio, scale] at bound
  rw [cost, ratio, value] at grown
  exact ⟨feasible, chosen, ratio, scale, below, bound, grown⟩

end Simplex.Tableau
