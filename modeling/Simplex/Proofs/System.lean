import Simplex.Proofs.Rational
import Simplex.Tableau.Handover

/-!
# Tableaux as systems of equations

Each row of a tableau is an equation in the columns, and `residual` is what a point leaves of it.
The operations on rows change neither the points that solve the constraint rows nor what the
objective row measures of them: `Represents.pivot`, `Represents.priceOut`.
-/

namespace Simplex.Tableau

/-! ### The shape of the results -/

section
variable {α : Type} [Scalar α]

@[simp] theorem layout_reduceObjective (t : Tableau α) (row : Nat) (factor : α) :
    (t.reduceObjective row factor).layout = t.layout := rfl

@[simp] theorem constraintCount_reduceObjective (t : Tableau α) (row : Nat) (factor : α) :
    (t.reduceObjective row factor).constraintCount = t.constraintCount := by
  simp [reduceObjective]

/-- What taking multiples of the rows of a basis off the objective row preserves holds of the
tableau in which it is priced out. -/
theorem priceFrom_induction {Q : Tableau α → Prop} {t : Tableau α} {row : Nat}
    {basis : List (Option Nat)}
    (kept : ∀ s k factor, k < row + basis.length → Q s → Q (s.reduceObjective k factor))
    (h : Q t) : Q (t.priceFrom row basis) := by
  induction basis generalizing t row with
  | nil => exact h
  | cons basic rest ih =>
    have later : ∀ s k factor, k < row + 1 + rest.length → Q s → Q (s.reduceObjective k factor) := by
      intro s k factor hk
      apply kept
      rw [List.length_cons]
      omega
    cases basic with
    | none => exact ih later h
    | some column =>
      rw [Tableau.priceFrom]
      split
      · exact ih later h
      · refine ih later (kept t row _ ?_ h)
        rw [List.length_cons]
        omega

@[simp] theorem layout_priceFrom (t : Tableau α) (row : Nat) (basis : List (Option Nat)) :
    (t.priceFrom row basis).layout = t.layout :=
  priceFrom_induction (Q := fun s => s.layout = t.layout) (fun _ _ _ _ same => same) rfl

@[simp] theorem constraintCount_priceFrom (t : Tableau α) (row : Nat)
    (basis : List (Option Nat)) : (t.priceFrom row basis).constraintCount = t.constraintCount :=
  priceFrom_induction (Q := fun s => s.constraintCount = t.constraintCount)
    (fun _ _ _ _ same => (constraintCount_reduceObjective ..).trans same) rfl

@[simp] theorem layout_withObjective (t : Tableau α) (costs : List α) :
    (t.withObjective costs).layout = t.layout := rfl

@[simp] theorem constraintCount_withObjective (t : Tableau α) (costs : List α) :
    (t.withObjective costs).constraintCount = t.constraintCount := by
  simp [withObjective]

end

/-! ### Rows at a point -/

def rowSum (t : Tableau Rat) (z : Nat → Rat) (i : Nat) : Rat :=
  ∑ j ∈ Finset.range t.layout.rhs, t.entry i j * z j

/-- What a point leaves of the equation of a row. -/
def residual (t : Tableau Rat) (z : Nat → Rat) (i : Nat) : Rat := t.rowSum z i - t.rhs i

def Solves (t : Tableau Rat) (z : Nat → Rat) : Prop := ∀ i < t.constraintCount, t.residual z i = 0

instance instDecidableSolves (t : Tableau Rat) (z : Nat → Rat) : Decidable (t.Solves z) :=
  inferInstanceAs (Decidable (∀ i < t.constraintCount, t.residual z i = 0))

theorem rowSum_add (t : Tableau Rat) (y z : Nat → Rat) (i : Nat) :
    t.rowSum (fun j => y j + z j) i = t.rowSum y i + t.rowSum z i := by
  simp only [rowSum, mul_add, Finset.sum_add_distrib]

theorem rowSum_mul (t : Tableau Rat) (c : Rat) (z : Nat → Rat) (i : Nat) :
    t.rowSum (fun j => c * z j) i = c * t.rowSum z i := by
  rw [rowSum, rowSum, Finset.mul_sum]
  exact Finset.sum_congr rfl fun j _ => by ring

/-! ### Operations on rows -/

theorem residual_combine {s t : Tableau Rat} {i k l : Nat} {a b : Rat}
    (same : s.layout = t.layout)
    (entries : ∀ j < t.layout.columns, s.entry i j = a * t.entry k j + b * t.entry l j)
    (z : Nat → Rat) : s.residual z i = a * t.residual z k + b * t.residual z l := by
  have sums : s.rowSum z i = a * t.rowSum z k + b * t.rowSum z l := by
    simp only [rowSum, Finset.mul_sum, ← Finset.sum_add_distrib, same]
    apply Finset.sum_congr rfl
    intro j hj
    rw [entries j (Nat.lt_succ_of_lt (Finset.mem_range.mp hj))]
    ring
  have right : s.rhs i = a * t.rhs k + b * t.rhs l := by
    rw [rhs, same, entries _ t.layout.rhs_lt_columns, rhs, rhs]
  rw [residual, residual, residual, sums, right]
  ring

theorem residual_pivot_row {t : Tableau Rat} {row : Nat} (column : Nat)
    (hr : row ≤ t.constraintCount) (z : Nat → Rat) :
    (t.pivot row column).residual z row = t.residual z row / t.entry row column := by
  have entries : ∀ j < t.layout.columns, (t.pivot row column).entry row j =
      (t.entry row column)⁻¹ * t.entry row j + 0 * t.entry row j := by
    intro j hj
    rw [entry_pivot row column hr hj, if_pos rfl]
    ring
  rw [residual_combine (layout_pivot t row column) entries]
  ring

theorem residual_pivot {t : Tableau Rat} {row i : Nat} (column : Nat)
    (hi : i ≤ t.constraintCount) (other : i ≠ row) (z : Nat → Rat) :
    (t.pivot row column).residual z i =
      t.residual z i - t.entry i column / t.entry row column * t.residual z row := by
  have entries : ∀ j < t.layout.columns, (t.pivot row column).entry i j =
      1 * t.entry i j + -(t.entry i column / t.entry row column) * t.entry row j := by
    intro j hj
    rw [entry_pivot row column hi hj, if_neg other]
    ring
  rw [residual_combine (layout_pivot t row column) entries]
  ring

theorem entry_reduceObjective_of_lt {t : Tableau Rat} {i j : Nat} (row : Nat) (factor : Rat)
    (hi : i < t.constraintCount) (hj : j < t.layout.columns) :
    (t.reduceObjective row factor).entry i j = t.entry i j := by
  rw [entry_reduceObjective row factor hi.le hj, if_neg (by simpa using hi.ne)]

theorem residual_congr {s t : Tableau Rat} {i : Nat} (same : s.layout = t.layout)
    (entries : ∀ j < t.layout.columns, s.entry i j = t.entry i j) (z : Nat → Rat) :
    s.residual z i = t.residual z i := by
  have combined : ∀ j < t.layout.columns, s.entry i j = 1 * t.entry i j + 0 * t.entry i j := by
    intro j hj
    rw [entries j hj]
    ring
  rw [residual_combine same combined]
  ring

theorem residual_reduceObjective_of_lt {t : Tableau Rat} {i : Nat} (row : Nat) (factor : Rat)
    (hi : i < t.constraintCount) (z : Nat → Rat) :
    (t.reduceObjective row factor).residual z i = t.residual z i :=
  residual_congr (layout_reduceObjective t row factor)
    (fun _ hj => entry_reduceObjective_of_lt row factor hi hj) z

theorem residual_reduceObjective (t : Tableau Rat) (row : Nat) (factor : Rat) (z : Nat → Rat) :
    (t.reduceObjective row factor).residual z t.constraintCount =
      t.residual z t.constraintCount - factor * t.residual z row := by
  have entries : ∀ j < t.layout.columns,
      (t.reduceObjective row factor).entry t.constraintCount j =
        1 * t.entry t.constraintCount j + -factor * t.entry row j := by
    intro j hj
    rw [entry_reduceObjective row factor (Nat.le_refl _) hj, objectiveRow_eq, if_pos rfl]
    ring
  rw [residual_combine (layout_reduceObjective t row factor) entries]
  ring

/-! ### What stays the same -/

/-- The constraint rows stand for `System`, and the objective row for `measure` on it. -/
structure Represents (t : Tableau Rat) (System : (Nat → Rat) → Prop)
    (measure : (Nat → Rat) → Rat) : Prop where
  solves_iff : ∀ z, t.Solves z ↔ System z
  measure_eq : ∀ z, System z → t.residual z t.constraintCount = measure z

variable {System : (Nat → Rat) → Prop} {measure : (Nat → Rat) → Rat}

theorem solves_pivot_iff {t : Tableau Rat} {row column : Nat} (hr : row < t.constraintCount)
    (nonzero : t.entry row column ≠ 0) (z : Nat → Rat) :
    (t.pivot row column).Solves z ↔ t.Solves z := by
  constructor
  · intro solved i hi
    have atRow : t.residual z row = 0 := by
      have h := solved row (by simpa using hr)
      rw [residual_pivot_row column hr.le, div_eq_zero_iff] at h
      exact h.resolve_right nonzero
    by_cases same : i = row
    · rw [same, atRow]
    · have h := solved i (by simpa using hi)
      rwa [residual_pivot column hi.le same, atRow, mul_zero, sub_zero] at h
  · intro solved i hi
    rw [constraintCount_pivot] at hi
    by_cases same : i = row
    · rw [same, residual_pivot_row column hr.le, solved row hr, zero_div]
    · rw [residual_pivot column hi.le same, solved i hi, solved row hr, mul_zero, sub_zero]

theorem Represents.pivot {t : Tableau Rat} {row column : Nat} (h : t.Represents System measure)
    (hr : row < t.constraintCount) (nonzero : t.entry row column ≠ 0) :
    (t.pivot row column).Represents System measure where
  solves_iff z := (solves_pivot_iff hr nonzero z).trans (h.solves_iff z)
  measure_eq z hz := by
    rw [constraintCount_pivot, residual_pivot column (Nat.le_refl _) (by omega),
      (h.solves_iff z).mpr hz row hr, mul_zero, sub_zero, h.measure_eq z hz]

theorem Represents.reduceObjective {t : Tableau Rat} {row : Nat} (factor : Rat)
    (h : t.Represents System measure) (hr : row < t.constraintCount) :
    (t.reduceObjective row factor).Represents System measure where
  solves_iff z := by
    rw [← h.solves_iff z]
    constructor
    · intro solved i hi
      rw [← residual_reduceObjective_of_lt row factor hi]
      exact solved i (by simpa using hi)
    · intro solved i hi
      rw [constraintCount_reduceObjective] at hi
      rw [residual_reduceObjective_of_lt row factor hi, solved i hi]
  measure_eq z hz := by
    rw [constraintCount_reduceObjective, residual_reduceObjective,
      (h.solves_iff z).mpr hz row hr, mul_zero, sub_zero, h.measure_eq z hz]

theorem Represents.priceFrom {t : Tableau Rat} {row : Nat} {basis : List (Option Nat)}
    (h : t.Represents System measure) (fits : row + basis.length ≤ t.constraintCount) :
    (t.priceFrom row basis).Represents System measure := by
  have kept : ∀ (s : Tableau Rat) k factor, k < row + basis.length →
      s.constraintCount = t.constraintCount ∧ s.Represents System measure →
      (s.reduceObjective k factor).constraintCount = t.constraintCount ∧
        (s.reduceObjective k factor).Represents System measure := by
    rintro s k factor hk ⟨count, represents⟩
    exact ⟨(constraintCount_reduceObjective ..).trans count,
      represents.reduceObjective factor (by omega)⟩
  exact (priceFrom_induction kept ⟨rfl, h⟩).2

theorem entry_priceFrom_of_lt (t : Tableau Rat) {i j : Nat} (row : Nat)
    (basis : List (Option Nat)) (hi : i < t.constraintCount) (hj : j < t.layout.columns) :
    (t.priceFrom row basis).entry i j = t.entry i j := by
  have kept : ∀ (s : Tableau Rat) k factor, k < row + basis.length →
      s.layout = t.layout ∧ s.constraintCount = t.constraintCount ∧ s.entry i j = t.entry i j →
      (s.reduceObjective k factor).layout = t.layout ∧
        (s.reduceObjective k factor).constraintCount = t.constraintCount ∧
        (s.reduceObjective k factor).entry i j = t.entry i j := by
    rintro s k factor - ⟨layout, count, same⟩
    refine ⟨layout, (constraintCount_reduceObjective ..).trans count, ?_⟩
    rw [entry_reduceObjective_of_lt k factor (by omega) (by rw [layout]; exact hj), same]
  exact (priceFrom_induction kept ⟨rfl, rfl, rfl⟩).2.2

theorem Represents.priceOut {t : Tableau Rat} {basis : List (Option Nat)}
    (h : t.Represents System measure) (fits : basis.length ≤ t.constraintCount) :
    (t.priceOut basis).Represents System measure :=
  h.priceFrom (by omega)

/-- A direction along which the constraint rows do not change keeps a solution one, and the
measure changes at the rate of the objective row. -/
theorem Represents.along {t : Tableau Rat} {z d : Nat → Rat} (h : t.Represents System measure)
    (hz : System z) (level : ∀ i < t.constraintCount, t.rowSum d i = 0) (c : Rat) :
    System (fun j => z j + c * d j) ∧
      measure (fun j => z j + c * d j) = measure z + c * t.rowSum d t.constraintCount := by
  have moved : ∀ i, t.residual (fun j => z j + c * d j) i = t.residual z i + c * t.rowSum d i := by
    intro i
    rw [residual, rowSum_add, rowSum_mul, residual]
    ring
  have solved : System (fun j => z j + c * d j) := by
    apply (h.solves_iff _).mp
    intro i hi
    rw [moved, level i hi, (h.solves_iff z).mpr hz i hi, mul_zero, add_zero]
  refine ⟨solved, ?_⟩
  rw [← h.measure_eq _ solved, moved, h.measure_eq z hz]

/-! ### Without the artificial columns -/

def realPart (l : Layout) (z : Nat → Rat) (j : Nat) : Rat := if j < l.artificialStart then z j else 0

theorem realPart_eq {l : Layout} {z : Nat → Rat} (real : ∀ j, l.artificialStart ≤ j → z j = 0) :
    realPart l z = z := by
  funext j
  unfold realPart
  split
  · rfl
  · rename_i outside
    exact (real j (not_lt.mp outside)).symm

@[simp] theorem layout_dropArtificial (t : Tableau Rat) :
    t.dropArtificial.layout = t.layout.withoutArtificial := rfl

@[simp] theorem constraintCount_dropArtificial (t : Tableau Rat) :
    t.dropArtificial.constraintCount = t.constraintCount := by
  simp [dropArtificial]

theorem entry_dropArtificial_of_lt {t : Tableau Rat} {i j : Nat} (hi : i ≤ t.constraintCount)
    (hj : j < t.layout.artificialStart) : t.dropArtificial.entry i j = t.entry i j := by
  rw [entry_dropArtificial hi hj.le, if_pos hj]

theorem rhs_dropArtificial {t : Tableau Rat} {i : Nat} (hi : i ≤ t.constraintCount) :
    t.dropArtificial.rhs i = t.rhs i := by
  rw [rhs, layout_dropArtificial, Layout.rhs_withoutArtificial,
    entry_dropArtificial hi (Nat.le_refl _), if_neg (Nat.lt_irrefl _)]
  rfl

theorem residual_dropArtificial {t : Tableau Rat} {i : Nat} (hi : i ≤ t.constraintCount)
    (z : Nat → Rat) : t.dropArtificial.residual z i = t.residual (realPart t.layout z) i := by
  have sums : t.dropArtificial.rowSum z i = t.rowSum (realPart t.layout z) i := by
    rw [rowSum, rowSum, layout_dropArtificial, Layout.rhs_withoutArtificial]
    rw [← Finset.sum_subset (Finset.range_mono t.layout.artificialStart_le_rhs)]
    · apply Finset.sum_congr rfl
      intro j hj
      have hj' := Finset.mem_range.mp hj
      rw [entry_dropArtificial_of_lt hi hj', realPart, if_pos hj']
    · intro j _ outside
      rw [realPart, if_neg (by simpa using outside), mul_zero]
  rw [residual, residual, sums, rhs_dropArtificial hi]

theorem solves_dropArtificial_iff (t : Tableau Rat) (z : Nat → Rat) :
    t.dropArtificial.Solves z ↔ t.Solves (realPart t.layout z) := by
  constructor
  · intro solved i hi
    rw [← residual_dropArtificial hi.le]
    exact solved i (by simpa using hi)
  · intro solved i hi
    rw [constraintCount_dropArtificial] at hi
    rw [residual_dropArtificial hi.le, solved i hi]

/-! ### A new objective -/

def costAt (costs : List Rat) (z : Nat → Rat) : Rat :=
  ∑ j ∈ Finset.range costs.length, costs.getD j 0 * z j

theorem entry_withObjective_of_lt {t : Tableau Rat} {i j : Nat} (costs : List Rat)
    (hi : i < t.constraintCount) (hj : j < t.layout.columns) :
    (t.withObjective costs).entry i j = t.entry i j := by
  rw [entry_withObjective costs hi.le hj, if_neg (by simpa using hi.ne)]

theorem residual_of_costs {t : Tableau Rat} {costs : List Rat}
    (entries : ∀ j < t.layout.columns, t.entry t.constraintCount j = costs.getD j 0)
    (fits : costs.length ≤ t.layout.rhs) (z : Nat → Rat) :
    t.residual z t.constraintCount = costAt costs z := by
  have right : t.rhs t.constraintCount = 0 := by
    rw [rhs, entries _ t.layout.rhs_lt_columns, List.getD_eq_default _ _ fits]
  rw [residual, right, sub_zero, rowSum, costAt]
  rw [← Finset.sum_subset (Finset.range_mono fits)]
  · apply Finset.sum_congr rfl
    intro j hj
    have hj' := Finset.mem_range.mp hj
    rw [entries j (by have := t.layout.rhs_lt_columns; omega)]
  · intro j hj outside
    have hj' := Finset.mem_range.mp hj
    rw [entries j (Nat.lt_succ_of_lt hj'), List.getD_eq_default _ _ (by simpa using outside),
      zero_mul]

theorem represents_withObjective {t : Tableau Rat} {costs : List Rat}
    (h : ∀ z, t.Solves z ↔ System z) (fits : costs.length ≤ t.layout.rhs) :
    (t.withObjective costs).Represents System (costAt costs) where
  solves_iff z := by
    rw [← h z]
    have same : ∀ i < t.constraintCount, (t.withObjective costs).residual z i = t.residual z i :=
      fun i hi => residual_congr (layout_withObjective t costs)
        (fun _ hj => entry_withObjective_of_lt costs hi hj) z
    constructor
    · intro solved i hi
      rw [← same i hi]
      exact solved i (by simpa using hi)
    · intro solved i hi
      rw [constraintCount_withObjective] at hi
      rw [same i hi, solved i hi]
  measure_eq z _ := by
    refine residual_of_costs (t := t.withObjective costs) ?_ fits z
    intro j hj
    have hj' : j < t.layout.columns := hj
    rw [constraintCount_withObjective, entry_withObjective costs (Nat.le_refl _) hj',
      objectiveRow_eq, if_pos rfl, List.getD_eq_getElem?_getD]

end Simplex.Tableau
