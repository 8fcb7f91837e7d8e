import Simplex.Proofs.Canonical

/-!
# Multipliers

An objective row that was priced out is the costs less a combination of the constraint rows. A
pivot gives its row the cost of its column as multiplier (`Combines.pivot`), and a row that never
had a basic column has the multiplier zero (`Accounts`). If the basic columns that are found are
exact, the multiplier of a row is the cost of its basic column, so that the objective value is the
cost of the basic solution (`costAt_basicPoint`).
-/

namespace Simplex.Tableau

def Combines (t : Tableau Rat) (costs : List Rat) (m : Nat → Rat) : Prop :=
  ∀ j < t.layout.columns, t.entry t.constraintCount j =
    costs.getD j 0 - ∑ i ∈ Finset.range t.constraintCount, m i * t.entry i j

section
variable {t : Tableau Rat} {costs : List Rat} {m : Nat → Rat} {row column : Nat}

theorem Combines.pivot (h : t.Combines costs m) (hr : row < t.constraintCount)
    (hc : column < t.layout.columns) (nonzero : t.entry row column ≠ 0) :
    (t.pivot row column).Combines costs (Function.update m row (costs.getD column 0)) := by
  intro j hj
  have hj' : j < t.layout.columns := hj
  rw [constraintCount_pivot, entry_pivot row column (Nat.le_refl _) hj', if_neg hr.ne']
  let unit := t.entry row j / t.entry row column
  -- What the pivot row loses in its own term it had contributed to the others.
  have terms : ∀ i ∈ Finset.range t.constraintCount,
      Function.update m row (costs.getD column 0) i * (t.pivot row column).entry i j =
        m i * t.entry i j - unit * (m i * t.entry i column) +
          if i = row then unit * costs.getD column 0 else 0 := by
    intro i hi
    have hi' := (Finset.mem_range.mp hi).le
    rw [entry_pivot row column hi' hj']
    by_cases same : i = row
    · have divided : t.entry row j = t.entry row column * unit := (mul_div_cancel₀ _ nonzero).symm
      have gone : m row * t.entry row j - unit * (m row * t.entry row column) = 0 := by
        rw [divided]
        ring
      rw [if_pos same, if_pos same, same, Function.update_self, gone, zero_add]
      exact mul_comm _ _
    · rw [if_neg same, if_neg same, Function.update_of_ne same]
      ring
  rw [Finset.sum_congr rfl terms, Finset.sum_add_distrib, Finset.sum_sub_distrib,
    ← Finset.mul_sum, Finset.sum_ite_eq', if_pos (Finset.mem_range.mpr hr), h j hj', h column hc]
  ring

theorem Combines.reduceObjective (h : t.Combines costs m) (hr : row < t.constraintCount)
    (factor : Rat) :
    (t.reduceObjective row factor).Combines costs (Function.update m row (m row + factor)) := by
  intro j hj
  have hj' : j < t.layout.columns := hj
  have terms : ∀ i ∈ Finset.range t.constraintCount,
      Function.update m row (m row + factor) i * (t.reduceObjective row factor).entry i j =
        m i * t.entry i j + if i = row then factor * t.entry row j else 0 := by
    intro i hi
    rw [entry_reduceObjective_of_lt row factor (Finset.mem_range.mp hi) hj']
    by_cases same : i = row
    · rw [if_pos same, same, Function.update_self]
      ring
    · rw [if_neg same, Function.update_of_ne same, add_zero]
  rw [constraintCount_reduceObjective, Finset.sum_congr rfl terms, Finset.sum_add_distrib,
    Finset.sum_ite_eq', if_pos (Finset.mem_range.mpr hr),
    entry_reduceObjective row factor (Nat.le_refl _) hj', objectiveRow_eq, if_pos rfl, h j hj']
  ring

theorem combines_withObjective (t : Tableau Rat) (costs : List Rat) :
    (t.withObjective costs).Combines costs fun _ => 0 := by
  intro j hj
  have hj' : j < t.layout.columns := hj
  rw [constraintCount_withObjective, entry_withObjective costs (Nat.le_refl _) hj',
    objectiveRow_eq, if_pos rfl, List.getD_eq_getElem?_getD]
  simp

/-- Pricing out changes the multipliers of rows with a basic column only. -/
theorem exists_combines_priceFrom {basics : List (Option Nat)} (h : t.Combines costs m)
    (fits : row + basics.length ≤ t.constraintCount) :
    ∃ m', (t.priceFrom row basics).Combines costs m' ∧
      ∀ i, m' i ≠ m i → ∃ k column, i = row + k ∧ basics[k]? = some (some column) := by
  induction basics generalizing t row m with
  | nil => exact ⟨m, h, fun i other => absurd rfl other⟩
  | cons first rest ih =>
    rw [List.length_cons] at fits
    have later : ∀ {s : Tableau Rat} {m₁ : Nat → Rat}, s.Combines costs m₁ →
        s.constraintCount = t.constraintCount →
        ∃ m', (s.priceFrom (row + 1) rest).Combines costs m' ∧ ∀ i, m' i ≠ m₁ i →
          ∃ k column, i = row + k ∧ (first :: rest)[k]? = some (some column) := by
      intro s m₁ combined count
      obtain ⟨m', combines, changed⟩ := @ih s m₁ (row + 1) combined (by omega)
      refine ⟨m', combines, fun i other => ?_⟩
      obtain ⟨k, column, place, basic⟩ := changed i other
      exact ⟨k + 1, column, by omega, basic⟩
    cases first with
    | none => exact later h rfl
    | some column =>
      rw [priceFrom]
      split
      · exact later h rfl
      · have inside : row < t.constraintCount := by omega
        obtain ⟨m', combines, changed⟩ :=
          later (h.reduceObjective inside (t.entry t.objectiveRow column))
            (constraintCount_reduceObjective ..)
        refine ⟨m', combines, fun i other => ?_⟩
        by_cases same : i = row
        · exact ⟨0, column, same, rfl⟩
        · refine changed i ?_
          rwa [Function.update_of_ne same]

theorem exists_combines_recosted (t : Tableau Rat) (costs : List Rat) :
    ∃ m, (t.recosted costs).Combines costs m ∧
      ∀ i < t.constraintCount, t.basicColumn i = none → m i = 0 := by
  have fits : 0 + t.basis.length ≤ (t.withObjective costs).constraintCount := by
    rw [length_basis, constraintCount_withObjective]
    omega
  obtain ⟨m, combines, changed⟩ :=
    exists_combines_priceFrom (t.combines_withObjective costs) fits
  refine ⟨m, combines, fun i hi none => ?_⟩
  by_contra other
  obtain ⟨k, column, place, basic⟩ := changed i other
  obtain rfl : i = k := by omega
  rw [getElem?_basis hi, none] at basic
  nomatch basic

end

/-! ### Rows without a basic column -/

/-- The objective row combines the costs with rows that had a basic column in `start` or have an exact
one without a cost. -/
def Accounts (costs : List Rat) (start : Nat → Option Nat) (t : Tableau Rat) : Prop :=
  ∃ m, t.Combines costs m ∧ ∀ i < t.constraintCount, start i = none →
    m i = 0 ∨ ∃ j, t.UnitAt i j ∧ t.entry t.constraintCount j = 0

section
variable {t : Tableau Rat} {costs : List Rat} {start : Nat → Option Nat}

theorem Accounts.chosen {step : Step Rat} (chosen : t.Chosen step)
    (h : t.Accounts costs start) : step.result.Accounts costs start := by
  obtain ⟨m, combines, free⟩ := h
  have width := Nat.lt_succ_of_lt chosen.column_lt
  rw [chosen.result_eq]
  refine ⟨_, combines.pivot chosen.row_lt width chosen.nonzero, fun i hi none => ?_⟩
  rw [constraintCount_pivot] at hi ⊢
  by_cases same : i = step.row
  · subst same
    refine Or.inr ⟨step.column, unitAt_pivot chosen.column_lt chosen.nonzero, ?_⟩
    rw [entry_pivot_column chosen.nonzero (Nat.le_refl _) width, if_neg hi.ne']
  · rw [Function.update_of_ne same]
    rcases free i hi none with zero | ⟨j, unit, cost⟩
    · exact Or.inl zero
    · refine Or.inr ⟨j, unit.pivot chosen.row_lt same, ?_⟩
      rw [unit.entry_pivot chosen.row_lt same (Nat.le_refl _), cost]

theorem accounts_recosted (t : Tableau Rat) (costs : List Rat) :
    (t.recosted costs).Accounts costs t.basicColumn := by
  obtain ⟨m, combines, free⟩ := t.exists_combines_recosted costs
  refine ⟨m, combines, fun i hi none => Or.inl (free i ?_ none)⟩
  rwa [constraintCount_recosted] at hi

theorem Accounts.descend (h : t.Accounts costs start) (phase : Phase) (limit : Nat) :
    (t.reached (t.descend phase limit).steps).Accounts costs start :=
  reached_of_along (Q := Accounts costs start) (fun _ _ chosen before => before.chosen chosen)
    (t.descend_along phase limit) h

/-! ### The basic solution found -/

theorem costAt_spread (t : Tableau Rat) (basis : Nat → Option Nat) (v : Nat → Rat) :
    costAt costs (t.spread basis v) =
      ∑ i ∈ Finset.range t.constraintCount, (basis i).elim 0 (costs.getD · 0) * v i := by
  simp only [costAt, spread, Finset.mul_sum]
  rw [Finset.sum_comm]
  apply Finset.sum_congr rfl
  intro i _
  cases basis i with
  | none => simp
  | some j =>
    simp only [Option.some.injEq, mul_ite, mul_zero, Option.elim_some]
    rw [Finset.sum_ite_eq]
    split
    · rfl
    · rename_i outside
      rw [List.getD_eq_default _ _ (by simpa using outside), zero_mul]

theorem objectiveValue_of_combines {m : Nat → Rat} (h : t.Combines costs m)
    (fits : costs.length ≤ t.layout.rhs) :
    -t.objectiveValue = ∑ i ∈ Finset.range t.constraintCount, m i * t.rhs i := by
  have right := h t.layout.rhs t.layout.rhs_lt_columns
  rw [List.getD_eq_default _ _ fits, zero_sub] at right
  rw [objectiveValue, rhs, objectiveRow_eq, right, neg_neg]
  rfl

/-- The multiplier of a row is the cost of its basic column. -/
theorem Combines.cost_of_unitAt {m : Nat → Rat} (h : t.Combines costs m) {i j : Nat}
    (unit : t.UnitAt i j) (hi : i < t.constraintCount) (cost : t.entry t.constraintCount j = 0) :
    costs.getD j 0 = m i := by
  have column := h j (Nat.lt_succ_of_lt unit.1)
  have sum : ∑ k ∈ Finset.range t.constraintCount, m k * t.entry k j = m i := by
    rw [Finset.sum_eq_single_of_mem i (Finset.mem_range.mpr hi), unit.2 i hi, if_pos rfl, mul_one]
    intro k hk other
    rw [unit.2 k (Finset.mem_range.mp hk), if_neg other, mul_zero]
  rw [cost, sum] at column
  linarith

/-- The basic columns found are exact as far as the constraint rows go. -/
def FindsUnits (t : Tableau Rat) : Prop :=
  ∀ i < t.constraintCount, ∀ j ∈ t.basicColumn i, t.UnitAt i j

instance instDecidableFindsUnits (t : Tableau Rat) : Decidable t.FindsUnits :=
  inferInstanceAs (Decidable (∀ i < t.constraintCount, ∀ j ∈ t.basicColumn i, t.UnitAt i j))

/-- A row without a basic column had none in `start` either, or has a zero on its right. -/
def KeepsRows (t : Tableau Rat) (start : Nat → Option Nat) : Prop :=
  ∀ i < t.constraintCount, t.basicColumn i = none → start i = none ∨ t.rhs i = 0

instance instDecidableKeepsRows (t : Tableau Rat) (start : Nat → Option Nat) :
    Decidable (t.KeepsRows start) :=
  inferInstanceAs (Decidable
    (∀ i < t.constraintCount, t.basicColumn i = none → start i = none ∨ t.rhs i = 0))

theorem costAt_basicPoint (h : t.Accounts costs start) (fits : costs.length ≤ t.layout.rhs)
    (units : t.FindsUnits) (priced : t.IsPriced t.basicColumn) (kept : t.KeepsRows start) :
    costAt costs (t.basicPoint t.basicColumn) = -t.objectiveValue := by
  obtain ⟨m, combines, free⟩ := h
  rw [objectiveValue_of_combines combines fits, basicPoint, costAt_spread]
  apply Finset.sum_congr rfl
  intro i hi
  have hi' := Finset.mem_range.mp hi
  cases basic : t.basicColumn i with
  | some j =>
    rw [Option.elim_some, combines.cost_of_unitAt (units i hi' j basic) hi' (priced i hi' j basic)]
  | none =>
    rw [Option.elim_none, zero_mul]
    rcases kept i hi' basic with before | right
    · rcases free i hi' before with zero | ⟨j, unit, cost⟩
      · rw [zero, zero_mul]
      · -- An exact column without a cost would have been found.
        obtain ⟨k, -, found⟩ := unit.exists_basicColumn hi' cost
        rw [basic] at found
        cases found
    · rw [right, mul_zero]

theorem basicPoint_of_basicColumn {i j : Nat} (hi : i < t.constraintCount)
    (basic : t.basicColumn i = some j) : t.basicPoint t.basicColumn j = t.rhs i := by
  rw [basicPoint, spread, Finset.sum_eq_single_of_mem i (Finset.mem_range.mpr hi), if_pos basic]
  intro k _ other
  refine if_neg fun same => other (Option.some.inj ?_)
  rw [← unitRow_of_basicColumn same, unitRow_of_basicColumn basic]

theorem basicValue_eq_chopped (t : Tableau Rat) (j : Nat) :
    t.basicValue t.basis j = chopped (t.basicPoint t.basicColumn j) := by
  unfold basicValue
  cases found : t.basis.idxOf? (some j) with
  | none =>
    rw [basicPoint, spread_nonbasic _ (basicColumn_ne_of_idxOf?_none found), chopped, scalar_abs,
      abs_zero, if_pos tolerance_pos]
  | some row =>
    obtain ⟨hr, basic⟩ := basicColumn_of_idxOf? found
    rw [basicPoint_of_basicColumn hr basic]
    rfl

end

end Simplex.Tableau
