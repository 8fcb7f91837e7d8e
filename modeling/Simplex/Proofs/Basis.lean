import Simplex.Proofs.System
import Mathlib.Logic.Function.Basic

/-!
# Exact bases

A basis names the unit column of each constraint row. A pivot exchanges one of them
(`IsBasis.pivot`), and pricing out takes the costs off all of them (`isPriced_priceOut`). `spread`
is the point with given values in the basic columns; the basic solution and the direction of an
entering column are two cases of it.
-/

namespace Simplex.Tableau

/-- A column is the unit vector of a row, as far as the constraint rows go. -/
def UnitAt (t : Tableau Rat) (i j : Nat) : Prop :=
  j < t.layout.rhs ∧ ∀ k < t.constraintCount, t.entry k j = if k = i then 1 else 0

instance instDecidableUnitAt (t : Tableau Rat) (i j : Nat) : Decidable (t.UnitAt i j) :=
  inferInstanceAs (Decidable (_ ∧ _))

/-- A row has a basic column, or nothing but its right-hand side. -/
def HasBasic (t : Tableau Rat) (i : Nat) : Option Nat → Prop
  | some j => t.UnitAt i j
  | none => ∀ j < t.layout.rhs, t.entry i j = 0

instance instDecidableHasBasic (t : Tableau Rat) (i : Nat) (basic : Option Nat) :
    Decidable (t.HasBasic i basic) :=
  match basic with
  | some j => instDecidableUnitAt t i j
  | none => inferInstanceAs (Decidable (∀ j < t.layout.rhs, t.entry i j = 0))

def IsBasis (t : Tableau Rat) (basis : Nat → Option Nat) : Prop :=
  ∀ i < t.constraintCount, t.HasBasic i (basis i)

instance instDecidableIsBasis (t : Tableau Rat) (basis : Nat → Option Nat) :
    Decidable (t.IsBasis basis) :=
  inferInstanceAs (Decidable (∀ i < t.constraintCount, t.HasBasic i (basis i)))

def IsPriced (t : Tableau Rat) (basis : Nat → Option Nat) : Prop :=
  ∀ i < t.constraintCount, ∀ j, basis i = some j → t.entry t.constraintCount j = 0

instance instDecidableIsPriced (t : Tableau Rat) (basis : Nat → Option Nat) :
    Decidable (t.IsPriced basis) :=
  inferInstanceAs (Decidable
    (∀ i < t.constraintCount, ∀ j ∈ basis i, t.entry t.constraintCount j = 0))

theorem IsBasis.unitAt {t : Tableau Rat} {basis : Nat → Option Nat} (h : t.IsBasis basis)
    {i j : Nat} (hi : i < t.constraintCount) (basic : basis i = some j) : t.UnitAt i j := by
  have has := h i hi
  rwa [basic] at has

theorem IsBasis.empty {t : Tableau Rat} {basis : Nat → Option Nat} (h : t.IsBasis basis)
    {i : Nat} (hi : i < t.constraintCount) (basic : basis i = none) :
    ∀ j < t.layout.rhs, t.entry i j = 0 := by
  have has := h i hi
  rwa [basic] at has

theorem UnitAt.row_eq {t : Tableau Rat} {i k j : Nat} (first : t.UnitAt i j) (second : t.UnitAt k j)
    (hi : i < t.constraintCount) : i = k := by
  by_contra other
  have one := first.2 i hi
  have zero := second.2 i hi
  rw [if_pos rfl] at one
  rw [if_neg other, one] at zero
  exact one_ne_zero zero

/-! ### Pivots -/

theorem entry_pivot_of_zero {t : Tableau Rat} {row i j : Nat} (column : Nat)
    (zero : t.entry row j = 0) (hi : i ≤ t.constraintCount) (hj : j < t.layout.columns) :
    (t.pivot row column).entry i j = t.entry i j := by
  rw [entry_pivot row column hi hj, zero, zero_div, mul_zero, sub_zero]
  split
  · rename_i same
    rw [same, zero]
  · rfl

theorem entry_pivot_column {t : Tableau Rat} {row column i : Nat}
    (nonzero : t.entry row column ≠ 0) (hi : i ≤ t.constraintCount)
    (hc : column < t.layout.columns) :
    (t.pivot row column).entry i column = if i = row then 1 else 0 := by
  rw [entry_pivot row column hi hc, div_self nonzero, mul_one, sub_self]

section
variable {t : Tableau Rat} {basis : Nat → Option Nat} {row column : Nat}

theorem unitAt_pivot (hc : column < t.layout.rhs) (nonzero : t.entry row column ≠ 0) :
    (t.pivot row column).UnitAt row column := by
  refine ⟨hc, fun k hk => ?_⟩
  rw [constraintCount_pivot] at hk
  exact entry_pivot_column nonzero hk.le (Nat.lt_succ_of_lt hc)

/-- A unit column has a zero in the pivot row if it belongs to another one, and then stays. -/
theorem UnitAt.entry_pivot {i j k : Nat} (h : t.UnitAt i j) (hr : row < t.constraintCount)
    (other : i ≠ row) (hk : k ≤ t.constraintCount) :
    (t.pivot row column).entry k j = t.entry k j := by
  have zero : t.entry row j = 0 := by rw [h.2 row hr, if_neg (Ne.symm other)]
  exact entry_pivot_of_zero column zero hk (Nat.lt_succ_of_lt h.1)

theorem UnitAt.pivot {i j : Nat} (h : t.UnitAt i j) (hr : row < t.constraintCount)
    (other : i ≠ row) : (t.pivot row column).UnitAt i j := by
  refine ⟨h.1, fun k hk => ?_⟩
  rw [constraintCount_pivot] at hk
  rw [h.entry_pivot hr other hk.le, h.2 k hk]

/-- The pivot column takes the place of the basic column of the pivot row. -/
theorem IsBasis.pivot (h : t.IsBasis basis) (hr : row < t.constraintCount)
    (hc : column < t.layout.rhs) (nonzero : t.entry row column ≠ 0) :
    (t.pivot row column).IsBasis (Function.update basis row (some column)) := by
  intro i hi
  rw [constraintCount_pivot] at hi
  by_cases same : i = row
  · rw [same, Function.update_self]
    exact unitAt_pivot hc nonzero
  · rw [Function.update_of_ne same]
    cases basic : basis i with
    | some j => exact (h.unitAt hi basic).pivot hr same
    | none =>
      intro j hj
      have bound : j < t.layout.columns := Nat.lt_succ_of_lt hj
      rw [entry_pivot row column hi.le bound, if_neg same, h.empty hi basic j hj,
        h.empty hi basic column hc, zero_mul, sub_zero]

theorem IsPriced.pivot (priced : t.IsPriced basis) (h : t.IsBasis basis)
    (hr : row < t.constraintCount) (hc : column < t.layout.rhs)
    (nonzero : t.entry row column ≠ 0) :
    (t.pivot row column).IsPriced (Function.update basis row (some column)) := by
  intro i hi j basic
  rw [constraintCount_pivot] at hi ⊢
  by_cases same : i = row
  · rw [same, Function.update_self] at basic
    obtain rfl := Option.some.inj basic
    rw [entry_pivot_column nonzero (Nat.le_refl _) (Nat.lt_succ_of_lt hc), if_neg (by omega)]
  · rw [Function.update_of_ne same] at basic
    rw [(h.unitAt hi basic).entry_pivot hr same (Nat.le_refl _), priced i hi j basic]

end

/-! ### Pricing out -/

theorem UnitAt.reduceObjective {t : Tableau Rat} {i j : Nat} (h : t.UnitAt i j) (row : Nat)
    (factor : Rat) : (t.reduceObjective row factor).UnitAt i j := by
  refine ⟨h.1, fun k hk => ?_⟩
  rw [constraintCount_reduceObjective] at hk
  rw [entry_reduceObjective_of_lt row factor hk (Nat.lt_succ_of_lt h.1), h.2 k hk]

theorem cost_reduceObjective {t : Tableau Rat} {i j row : Nat} (h : t.UnitAt i j)
    (hr : row < t.constraintCount) (factor : Rat) :
    (t.reduceObjective row factor).entry t.constraintCount j =
      t.entry t.constraintCount j - factor * if row = i then 1 else 0 := by
  rw [entry_reduceObjective row factor (Nat.le_refl _) (Nat.lt_succ_of_lt h.1), objectiveRow_eq,
    if_pos rfl, h.2 row hr]

/-- Pricing from `row` down takes the costs off the basic columns of these rows, and brings none
back to a unit column of a row above. -/
theorem cost_priceFrom {t : Tableau Rat} {row i j : Nat} {basics : List (Option Nat)}
    (fits : row + basics.length ≤ t.constraintCount)
    (units : ∀ (k column : Nat), basics[k]? = some (some column) → t.UnitAt (row + k) column)
    (unit : t.UnitAt i j)
    (basic : (i < row ∧ t.entry t.constraintCount j = 0) ∨ ∃ k : Nat, basics[k]? = some (some j)) :
    (t.priceFrom row basics).entry t.constraintCount j = 0 := by
  induction basics generalizing t row with
  | nil =>
    rcases basic with ⟨-, zero⟩ | ⟨k, none⟩
    · exact zero
    · nomatch none
  | cons first rest ih =>
    rw [List.length_cons] at fits
    have units' : ∀ (k column : Nat), rest[k]? = some (some column) →
        t.UnitAt (row + 1 + k) column := by
      intro k column found
      rw [Nat.add_assoc, Nat.add_comm 1 k]
      exact units (k + 1) column found
    cases first with
    | none =>
      refine ih (by omega) units' unit ?_
      rcases basic with ⟨above, zero⟩ | ⟨k, found⟩
      · exact Or.inl ⟨by omega, zero⟩
      · cases k with
        | zero => nomatch found
        | succ k => exact Or.inr ⟨k, found⟩
    | some column =>
      have own := units 0 column rfl
      rw [Nat.add_zero] at own
      have sameRow : column = j → i = row := by
        rintro rfl
        exact (own.row_eq unit (by omega)).symm
      rw [priceFrom]
      split
      · rename_i free
        refine ih (by omega) units' unit ?_
        rcases basic with ⟨above, zero⟩ | ⟨k, found⟩
        · exact Or.inl ⟨by omega, zero⟩
        · cases k with
          | zero =>
            obtain rfl := Option.some.inj (Option.some.inj found)
            exact Or.inl ⟨by have := sameRow rfl; omega, by simpa using free⟩
          | succ k => exact Or.inr ⟨k, found⟩
      · have count := constraintCount_reduceObjective t row (t.entry t.objectiveRow column)
        rw [← count]
        refine ih (by omega) (fun k other found => (units' k other found).reduceObjective ..)
          (unit.reduceObjective ..) ?_
        rw [count, cost_reduceObjective unit (by omega)]
        rcases basic with ⟨above, zero⟩ | ⟨k, found⟩
        · exact Or.inl ⟨by omega, by rw [zero, if_neg (by omega), mul_zero, sub_zero]⟩
        · cases k with
          | zero =>
            obtain rfl := Option.some.inj (Option.some.inj found)
            have place := sameRow rfl
            exact Or.inl ⟨by omega,
              by rw [if_pos place.symm, mul_one, objectiveRow_eq, sub_self]⟩
          | succ k => exact Or.inr ⟨k, found⟩

section
variable {t : Tableau Rat} {basis : Nat → Option Nat}

def basicsOf (t : Tableau Rat) (basis : Nat → Option Nat) : List (Option Nat) :=
  (List.range t.constraintCount).map basis

theorem isPriced_priceOut (h : t.IsBasis basis) :
    (t.priceOut (t.basicsOf basis)).IsPriced basis := by
  intro i hi j basic
  rw [priceOut, constraintCount_priceFrom] at hi ⊢
  refine cost_priceFrom ?_ ?_ (h.unitAt hi basic) (Or.inr ⟨i, ?_⟩)
  · simp [basicsOf]
  · intro k column found
    obtain ⟨bound, same⟩ := List.getElem?_eq_some_iff.mp found
    simp only [basicsOf, List.length_map, List.length_range] at bound
    simp only [basicsOf, List.getElem_map, List.getElem_range] at same
    rw [Nat.zero_add]
    exact h.unitAt bound same
  · simp [basicsOf, hi, basic]

theorem IsBasis.congr {s : Tableau Rat} (h : t.IsBasis basis) (layout : s.layout = t.layout)
    (count : s.constraintCount = t.constraintCount)
    (entries : ∀ i < t.constraintCount, ∀ j < t.layout.rhs, s.entry i j = t.entry i j) :
    s.IsBasis basis := by
  intro i hi
  rw [count] at hi
  cases basic : basis i with
  | some j =>
    obtain ⟨bound, unit⟩ := h.unitAt hi basic
    refine ⟨layout ▸ bound, fun k hk => ?_⟩
    rw [count] at hk
    rw [entries k hk j bound, unit k hk]
  | none =>
    intro j hj
    rw [layout] at hj
    rw [entries i hi j hj, h.empty hi basic j hj]

theorem IsBasis.priceOut (h : t.IsBasis basis) (basics : List (Option Nat)) :
    (t.priceOut basics).IsBasis basis :=
  h.congr (layout_priceFrom ..) (constraintCount_priceFrom ..)
    fun _ hi _ hj => entry_priceFrom_of_lt t 0 basics hi (Nat.lt_succ_of_lt hj)

theorem rhs_priceOut (basics : List (Option Nat)) {i : Nat} (hi : i < t.constraintCount) :
    (t.priceOut basics).rhs i = t.rhs i := by
  rw [rhs, priceOut, layout_priceFrom, entry_priceFrom_of_lt t 0 basics hi t.layout.rhs_lt_columns,
    rhs]

end

/-! ### Points on a basis -/

section
variable {t : Tableau Rat} {basis : Nat → Option Nat}

/-- The point with value `v i` in the basic column of row `i`, and zero in the other columns. -/
def spread (t : Tableau Rat) (basis : Nat → Option Nat) (v : Nat → Rat) (j : Nat) : Rat :=
  ∑ i ∈ Finset.range t.constraintCount, if basis i = some j then v i else 0

theorem spread_nonneg {v : Nat → Rat} (h : ∀ i < t.constraintCount, 0 ≤ v i) (j : Nat) :
    0 ≤ t.spread basis v j := by
  apply Finset.sum_nonneg
  intro i hi
  split
  · exact h i (Finset.mem_range.mp hi)
  · exact le_refl 0

theorem spread_basic (h : t.IsBasis basis) (v : Nat → Rat) {i j : Nat}
    (hi : i < t.constraintCount) (basic : basis i = some j) : t.spread basis v j = v i := by
  rw [spread, Finset.sum_eq_single i, if_pos basic]
  · intro k hk other
    refine if_neg fun same => other ?_
    have hk' := Finset.mem_range.mp hk
    exact (h.unitAt hk' same).row_eq (h.unitAt hi basic) hk'
  · intro outside
    exact absurd (Finset.mem_range.mpr hi) outside

theorem spread_nonbasic (v : Nat → Rat) {j : Nat}
    (free : ∀ i < t.constraintCount, basis i ≠ some j) : t.spread basis v j = 0 :=
  Finset.sum_eq_zero fun i hi => if_neg (free i (Finset.mem_range.mp hi))

theorem rowSum_spread (h : t.IsBasis basis) (v : Nat → Rat) (k : Nat) :
    t.rowSum (t.spread basis v) k = ∑ i ∈ Finset.range t.constraintCount,
      ((basis i).elim 0 (t.entry k)) * v i := by
  simp only [rowSum, spread, Finset.mul_sum]
  rw [Finset.sum_comm]
  apply Finset.sum_congr rfl
  intro i hi
  cases basic : basis i with
  | none => simp
  | some j =>
    have bound := (h.unitAt (Finset.mem_range.mp hi) basic).1
    simp only [Option.some.injEq, mul_ite, mul_zero, Option.elim_some]
    rw [Finset.sum_ite_eq, if_pos (Finset.mem_range.mpr bound)]

theorem rowSum_spread_of_lt (h : t.IsBasis basis) (v : Nat → Rat) {k : Nat}
    (hk : k < t.constraintCount) :
    t.rowSum (t.spread basis v) k = if (basis k).isSome then v k else 0 := by
  rw [rowSum_spread h, Finset.sum_eq_single k]
  · cases basic : basis k with
    | none => simp
    | some j => simp [(h.unitAt hk basic).2 k hk]
  · intro i hi other
    cases basic : basis i with
    | none => exact zero_mul _
    | some j =>
      have unit := (h.unitAt (Finset.mem_range.mp hi) basic).2 k hk
      rw [Option.elim_some, unit, if_neg (Ne.symm other), zero_mul]
  · intro outside
    exact absurd (Finset.mem_range.mpr hk) outside

theorem rowSum_spread_objective (h : t.IsBasis basis) (priced : t.IsPriced basis)
    (v : Nat → Rat) : t.rowSum (t.spread basis v) t.constraintCount = 0 := by
  rw [rowSum_spread h]
  apply Finset.sum_eq_zero
  intro i hi
  cases basic : basis i with
  | none => exact zero_mul _
  | some j => rw [Option.elim_some, priced i (Finset.mem_range.mp hi) j basic, zero_mul]

/-- The basic solution: each basic column has the right-hand side of its row. -/
def basicPoint (t : Tableau Rat) (basis : Nat → Option Nat) : Nat → Rat := t.spread basis t.rhs

theorem solves_basicPoint (h : t.IsBasis basis)
    (empty : ∀ i < t.constraintCount, basis i = none → t.rhs i = 0) :
    t.Solves (t.basicPoint basis) := by
  intro i hi
  rw [residual, basicPoint, rowSum_spread_of_lt h t.rhs hi]
  cases basic : basis i with
  | none => simp [empty i hi basic]
  | some j => simp

theorem residual_basicPoint (h : t.IsBasis basis) (priced : t.IsPriced basis) :
    t.residual (t.basicPoint basis) t.constraintCount = -t.objectiveValue := by
  rw [residual, basicPoint, rowSum_spread_objective h priced, zero_sub, objectiveValue,
    objectiveRow_eq]

theorem IsBasis.rhs_eq_zero (h : t.IsBasis basis) {z : Nat → Rat} (solved : t.Solves z) {i : Nat}
    (hi : i < t.constraintCount) (basic : basis i = none) : t.rhs i = 0 := by
  have sum : t.rowSum z i = 0 := by
    apply Finset.sum_eq_zero
    intro j hj
    rw [h.empty hi basic j (Finset.mem_range.mp hj), zero_mul]
  have row := solved i hi
  rw [residual, sum] at row
  linarith

/-- The direction in which a column enters: it rises by one, and each basic column falls by its
entry in the row. -/
def direction (t : Tableau Rat) (basis : Nat → Option Nat) (column j : Nat) : Rat :=
  (if j = column then 1 else 0) + t.spread basis (fun i => -t.entry i column) j

theorem rowSum_direction {column : Nat} (hc : column < t.layout.rhs) (i : Nat) :
    t.rowSum (t.direction basis column) i =
      t.entry i column + t.rowSum (t.spread basis fun i => -t.entry i column) i := by
  have single : t.rowSum (fun j => if j = column then 1 else 0) i = t.entry i column := by
    rw [rowSum]
    simp only [mul_ite, mul_one, mul_zero]
    rw [Finset.sum_ite_eq', if_pos (Finset.mem_range.mpr hc)]
  rw [← single, ← rowSum_add]
  rfl

theorem level_direction (h : t.IsBasis basis) {column i : Nat} (hc : column < t.layout.rhs)
    (hi : i < t.constraintCount) : t.rowSum (t.direction basis column) i = 0 := by
  rw [rowSum_direction hc, rowSum_spread_of_lt h _ hi]
  cases basic : basis i with
  | none => simp [h.empty hi basic column hc]
  | some j => simp

theorem cost_direction (h : t.IsBasis basis) (priced : t.IsPriced basis) {column : Nat}
    (hc : column < t.layout.rhs) :
    t.rowSum (t.direction basis column) t.constraintCount = t.entry t.constraintCount column := by
  rw [rowSum_direction hc, rowSum_spread_objective h priced, add_zero]

theorem direction_nonneg {column : Nat}
    (falling : ∀ i < t.constraintCount, t.entry i column ≤ 0) (j : Nat) :
    0 ≤ t.direction basis column j := by
  have own : (0 : Rat) ≤ if j = column then 1 else 0 := by
    split
    · exact zero_le_one
    · exact le_refl 0
  have others : 0 ≤ t.spread basis (fun i => -t.entry i column) j :=
    spread_nonneg (fun i hi => neg_nonneg.mpr (falling i hi)) j
  exact add_nonneg own others

end

end Simplex.Tableau
