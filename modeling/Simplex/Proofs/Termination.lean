import Mathlib.Data.Finset.Powerset
import Simplex.Proofs.RatioTest

/-!
# Termination

Two tableaux of one system with the same basic columns have the same objective value
(`objectiveValue_eq_of_basicSet`), and a pivot on a row with a positive right-hand side raises it
(`Tableau.Chosen.objectiveValue_lt`). So a descent through such pivots meets no set of basic columns
twice, and it takes fewer steps than there are sets (`terminates_of_positive`).
-/

namespace Simplex.Tableau

/-- The columns of a basis. -/
def basicSet (t : Tableau Rat) (basis : Nat → Option Nat) : Finset Nat :=
  (Finset.range t.layout.rhs).filter fun j => ∃ i < t.constraintCount, basis i = some j

/-- The basic columns before each step and behind the last one: the pivot column takes the place of
the basic column of its row. -/
def basicSets (t : Tableau Rat) (basis : Nat → Option Nat) : List (Step Rat) → List (Finset Nat)
  | [] => [t.basicSet basis]
  | step :: rest => t.basicSet basis ::
    step.result.basicSets (Function.update basis step.row (some step.column)) rest

theorem length_basicSets (t : Tableau Rat) (basis : Nat → Option Nat) (steps : List (Step Rat)) :
    (t.basicSets basis steps).length = steps.length + 1 := by
  induction steps generalizing t basis with
  | nil => rfl
  | cons step rest ih => exact congrArg Nat.succ (ih step.result _)

section
variable {s t : Tableau Rat} {b basis : Nat → Option Nat} {System : (Nat → Rat) → Prop}
  {measure : (Nat → Rat) → Rat}

theorem IsBasis.mem_basicSet (h : t.IsBasis basis) {j : Nat} :
    j ∈ t.basicSet basis ↔ ∃ i < t.constraintCount, basis i = some j := by
  rw [basicSet, Finset.mem_filter, Finset.mem_range, and_iff_right_iff_imp]
  rintro ⟨i, hi, basic⟩
  exact (h.unitAt hi basic).1

/-- Each row has a basic column of its own. -/
theorem card_basicSet (h : t.IsBasis basis) (full : t.IsFull basis) :
    (t.basicSet basis).card = t.constraintCount := by
  have basic : ∀ i < t.constraintCount, basis i = some ((basis i).getD 0) := by
    intro i hi
    obtain ⟨j, place⟩ := Option.isSome_iff_exists.mp (full i hi)
    rw [place, Option.getD_some]
  have image : t.basicSet basis =
      (Finset.range t.constraintCount).image fun i => (basis i).getD 0 := by
    ext j
    rw [h.mem_basicSet, Finset.mem_image]
    constructor
    · rintro ⟨i, hi, place⟩
      exact ⟨i, Finset.mem_range.mpr hi, by rw [place, Option.getD_some]⟩
    · rintro ⟨i, hi, rfl⟩
      exact ⟨i, Finset.mem_range.mp hi, basic i (Finset.mem_range.mp hi)⟩
  rw [image, Finset.card_image_of_injOn, Finset.card_range]
  intro i hi k hk same
  have hi' := Finset.mem_range.mp hi
  have hk' := Finset.mem_range.mp hk
  have other := h.unitAt hk' (basic k hk')
  rw [← show (basis i).getD 0 = (basis k).getD 0 from same] at other
  exact (h.unitAt hi' (basic i hi')).row_eq other hi'

/-! ### The objective value of a set of basic columns -/

/-- A solution that is zero outside the basic columns is the basic one. -/
theorem eq_basicPoint (h : t.IsBasis basis) (full : t.IsFull basis) {z : Nat → Rat}
    (solved : t.Solves z) (outside : ∀ j ∉ t.basicSet basis, z j = 0) :
    z = t.basicPoint basis := by
  let v : Nat → Rat := fun i => (basis i).elim 0 z
  have spread : z = t.spread basis v := by
    funext j
    by_cases member : j ∈ t.basicSet basis
    · obtain ⟨i, hi, basic⟩ := h.mem_basicSet.mp member
      rw [spread_basic h v hi basic]
      simp only [v, basic, Option.elim_some]
    · rw [outside j member, spread_nonbasic]
      exact fun i hi basic => member (h.mem_basicSet.mpr ⟨i, hi, basic⟩)
  have values : ∀ i < t.constraintCount, v i = t.rhs i := by
    intro i hi
    have row := solved i hi
    rw [residual, spread, rowSum_spread_of_lt h v hi, if_pos (full i hi)] at row
    exact sub_eq_zero.mp row
  rw [spread, basicPoint]
  funext j
  refine Finset.sum_congr rfl fun i hi => ?_
  rw [values i (Finset.mem_range.mp hi)]

theorem basicPoint_outside (h : t.IsBasis basis) {j : Nat} (outside : j ∉ t.basicSet basis) :
    t.basicPoint basis j = 0 :=
  spread_nonbasic _ fun i hi basic => outside (h.mem_basicSet.mpr ⟨i, hi, basic⟩)

/-- A tableau of a system, priced out on a basis that has a column for every row. -/
structure Stands (System : (Nat → Rat) → Prop) (measure : (Nat → Rat) → Rat) (t : Tableau Rat)
    (basis : Nat → Option Nat) : Prop where
  represents : t.Represents System measure
  canonical : t.Canonical basis
  full : t.IsFull basis

theorem Stands.solves (h : Stands System measure t basis) : System (t.basicPoint basis) :=
  (h.represents.solves_iff _).mp (h.canonical.solves_basicPoint h.full)

theorem Stands.measure_basicPoint (h : Stands System measure t basis) :
    measure (t.basicPoint basis) = -t.objectiveValue := by
  rw [← residual_basicPoint h.canonical.isBasis h.canonical.isPriced,
    h.represents.measure_eq _ h.solves]

/-- The objective value is a function of the set of basic columns. -/
theorem objectiveValue_eq_of_basicSet (first : Stands System measure s b)
    (second : Stands System measure t basis) (same : s.basicSet b = t.basicSet basis) :
    s.objectiveValue = t.objectiveValue := by
  have point : s.basicPoint b = t.basicPoint basis := by
    refine eq_basicPoint second.canonical.isBasis second.full
      ((second.represents.solves_iff _).mpr first.solves) fun j outside => ?_
    rw [← same] at outside
    exact basicPoint_outside first.canonical.isBasis outside
  have measured := first.measure_basicPoint
  rw [point, second.measure_basicPoint] at measured
  linarith

/-! ### Steps -/

variable {step : Step Rat}

theorem Chosen.objectiveValue_lt (chosen : t.Chosen step) (positive : 0 < t.rhs step.row) :
    t.objectiveValue < step.result.objectiveValue := by
  rw [chosen.result_eq]
  exact objectiveValue_lt_pivot chosen.leaving chosen.entering positive

theorem Stands.chosen (chosen : t.Chosen step) (h : Stands System measure t basis) :
    Stands System measure step.result (Function.update basis step.row (some step.column)) where
  represents := h.represents.chosen chosen
  canonical := h.canonical.chosen chosen
  full := h.full.chosen chosen

/-- A step on a row with a positive right-hand side. -/
def RisesBy (t : Tableau Rat) (step : Step Rat) : Prop := t.Chosen step ∧ 0 < t.rhs step.row

/-- Each set of basic columns is that of a tableau whose objective value is not below the first. -/
theorem stands_of_mem_basicSets (h : Stands System measure t basis) {steps : List (Step Rat)}
    (along : t.Along RisesBy steps) {columns : Finset Nat}
    (member : columns ∈ t.basicSets basis steps) :
    ∃ u b, Stands System measure u b ∧ columns = u.basicSet b ∧
      u.layout = t.layout ∧ u.constraintCount = t.constraintCount ∧
      t.objectiveValue ≤ u.objectiveValue := by
  induction steps generalizing t basis with
  | nil => exact ⟨t, basis, h, List.mem_singleton.mp member, rfl, rfl, le_refl _⟩
  | cons step rest ih =>
    obtain ⟨⟨chosen, positive⟩, later⟩ := along
    obtain rfl | member := List.mem_cons.mp member
    · exact ⟨t, basis, h, rfl, rfl, rfl, le_refl _⟩
    · obtain ⟨u, b, stands, same, layout, count, above⟩ := ih (h.chosen chosen) later member
      refine ⟨u, b, stands, same, ?_, ?_, (chosen.objectiveValue_lt positive).le.trans above⟩
      · rw [layout, chosen.result_eq, layout_pivot]
      · rw [count, chosen.result_eq, constraintCount_pivot]

theorem nodup_basicSets (h : Stands System measure t basis) {steps : List (Step Rat)}
    (along : t.Along RisesBy steps) : (t.basicSets basis steps).Nodup := by
  induction steps generalizing t basis with
  | nil => exact List.nodup_singleton _
  | cons step rest ih =>
    obtain ⟨⟨chosen, positive⟩, later⟩ := along
    refine List.nodup_cons.mpr ⟨fun again => ?_, ih (h.chosen chosen) later⟩
    -- a set that comes again would have the objective value of before, which has risen since
    obtain ⟨u, b, stands, same, -, -, above⟩ :=
      stands_of_mem_basicSets (h.chosen chosen) later again
    have equal := objectiveValue_eq_of_basicSet h stands same
    have risen := chosen.objectiveValue_lt positive
    linarith

end

/-! ### Descents -/

/-- A descent on an exact basis that leaves only through rows with a positive right-hand side raises
the objective value at each step, meets no set of basic columns again, and does not reach a limit of
as many steps as there are sets of that size. -/
theorem terminates_of_positive {t : Tableau Rat} {basis : Nat → Option Nat}
    (canonical : t.Canonical basis) (full : t.IsFull basis) (phase : Phase) (limit : Nat)
    (positive : t.Along (fun u step => 0 < u.rhs step.row) (t.descend phase limit).steps) :
    t.Along (fun u step => u.objectiveValue < step.result.objectiveValue)
        (t.descend phase limit).steps ∧
      (t.basicSets basis (t.descend phase limit).steps).Nodup ∧
      (t.layout.rhs.choose t.constraintCount ≤ limit → ∀ phase' limit',
        (t.descend phase limit).ending ≠ .error (.iterationLimit phase' limit')) := by
  have stands : Stands t.Solves (t.residual · t.constraintCount) t basis :=
    ⟨⟨fun _ => Iff.rfl, fun _ _ => rfl⟩, canonical, full⟩
  have rises : t.Along RisesBy (t.descend phase limit).steps :=
    (t.descend_along phase limit).and positive
  have nodup := nodup_basicSets stands rises
  refine ⟨rises.imp fun _ _ h => h.1.objectiveValue_lt h.2, nodup, ?_⟩
  intro enough phase' limit' reached
  have steps : (t.descend phase limit).steps.length = limit :=
    Descent.length_run_of_limit reached
  -- every set met is one of the subsets of the columns with a member for each row
  have inside : (t.basicSets basis (t.descend phase limit).steps).toFinset ⊆
      (Finset.range t.layout.rhs).powersetCard t.constraintCount := by
    intro columns member
    obtain ⟨u, b, stands', rfl, layout, count, -⟩ :=
      stands_of_mem_basicSets stands rises (List.mem_toFinset.mp member)
    rw [Finset.mem_powersetCard, ← layout, ← count]
    exact ⟨Finset.filter_subset _ _, card_basicSet stands'.canonical.isBasis stands'.full⟩
  have few := Finset.card_le_card inside
  rw [List.toFinset_card_of_nodup nodup, length_basicSets, steps, Finset.card_powersetCard,
    Finset.card_range] at few
  omega

/-- The greatest `3x₁ + 5x₂` with `x₁ ≤ 4`, `2x₂ ≤ 12` and `3x₁ + 2x₂ ≤ 18`. -/
def threeSlacks : Tableau Rat :=
  ofFn { decision := 2, slack := 3, surplus := 0, artificial := 0 } 3 fun i j =>
    (([[1, 0, 1, 0, 0, 4], [0, 2, 0, 1, 0, 12], [3, 2, 0, 0, 1, 18], [-3, -5, 0, 0, 0, 0]].getD i
      []).getD j 0)

theorem terminates_of_positive_slacks :
    let d := threeSlacks.descend .two 10
    threeSlacks.Along (fun u step => 0 < u.rhs step.row) d.steps ∧
      threeSlacks.Along (fun u step => u.objectiveValue < step.result.objectiveValue) d.steps ∧
      (threeSlacks.basicSets (fun i => some (i + 2)) d.steps).Nodup ∧
      ∀ phase' limit', d.ending ≠ .error (.iterationLimit phase' limit') := by
  have canonical : threeSlacks.Canonical fun i => some (i + 2) :=
    ⟨by decide +kernel, by decide +kernel⟩
  have positive : threeSlacks.Along (fun u step => 0 < u.rhs step.row)
      (threeSlacks.descend .two 10).steps := by decide +kernel
  obtain ⟨rises, nodup, ends⟩ := terminates_of_positive canonical (fun _ _ => rfl) .two 10 positive
  exact ⟨positive, rises, nodup, ends (by decide +kernel)⟩

end Simplex.Tableau
