import Simplex.Proofs.RatioTest

/-!
# Rescaled columns

To multiply a column by a positive factor is to measure its variable in another unit. The threshold
of the ratio test is in proportion to the column and all ratios are divided by the factor, so that
the test takes the same row (`leavingRow_scaleColumn`). The pivot on it takes the factor out again:
only the pivot row keeps it, which now gives the value of that variable (`pivot_of_scaleColumn`).
-/

namespace Simplex.Tableau

/-! ### Entries outside -/

theorem entry_eq_zero {α : Type} [Scalar α] {t : Tableau α} {i j : Nat}
    (outside : ¬ t.InRange i j) : t.entry i j = 0 := by
  rw [InRange, not_and_or, not_lt, not_lt] at outside
  rcases outside with below | behind
  · rw [entry, List.getElem?_eq_none below]
    rfl
  · cases found : t.rows[i]? with
    | none =>
      rw [entry, found]
      rfl
    | some row =>
      have width := t.length_of_mem row (List.mem_of_getElem? found)
      rw [entry, found, Option.getD_some, List.getElem?_eq_none (by omega)]
      rfl

theorem inRange_iff_le {α : Type} {t : Tableau α} {i j : Nat} :
    t.InRange i j ↔ i ≤ t.constraintCount ∧ j < t.layout.columns := by
  rw [InRange, length_rows, Nat.lt_succ_iff]

/-- `entry_pivot` without the bounds: outside both sides are zero. -/
theorem entry_pivot_everywhere (t : Tableau Rat) (row column i j : Nat) :
    (t.pivot row column).entry i j =
      if i = row then t.entry row j / t.entry row column
      else t.entry i j - t.entry i column * (t.entry row j / t.entry row column) := by
  by_cases here : t.InRange i j
  · obtain ⟨hi, hj⟩ := inRange_iff_le.mp here
    exact entry_pivot row column hi hj
  · have there : ¬ (t.pivot row column).InRange i j := by
      rw [inRange_iff_le, constraintCount_pivot, layout_pivot, ← inRange_iff_le]
      exact here
    rw [entry_eq_zero there]
    split
    · rename_i same
      rw [← same, entry_eq_zero here, zero_div]
    · by_cases behind : t.layout.columns ≤ j
      · have zero : t.entry row j = 0 := entry_eq_zero fun h => behind.not_gt h.2
        rw [entry_eq_zero here, zero, zero_div, mul_zero, sub_zero]
      · have below : t.constraintCount < i := by
          by_contra le
          exact here (inRange_iff_le.mpr ⟨not_lt.mp le, not_le.mp behind⟩)
        have zero : t.entry i column = 0 :=
          entry_eq_zero fun h => below.not_ge (inRange_iff_le.mp h).1
        rw [entry_eq_zero here, zero, zero_mul, sub_zero]

/-! ### The column -/

/-- The tableau with the entries of a column, that of the objective row included, multiplied by a
factor. -/
def scaleColumn (t : Tableau Rat) (column : Nat) (factor : Rat) : Tableau Rat :=
  ofFn t.layout t.constraintCount fun i j =>
    if j = column then factor * t.entry i j else t.entry i j

variable {t : Tableau Rat} {column : Nat} {factor : Rat}

@[simp] theorem layout_scaleColumn (t : Tableau Rat) (column : Nat) (factor : Rat) :
    (t.scaleColumn column factor).layout = t.layout := rfl

@[simp] theorem constraintCount_scaleColumn (t : Tableau Rat) (column : Nat) (factor : Rat) :
    (t.scaleColumn column factor).constraintCount = t.constraintCount :=
  constraintCount_ofFn ..

theorem entry_scaleColumn (t : Tableau Rat) (column : Nat) (factor : Rat) (i j : Nat) :
    (t.scaleColumn column factor).entry i j =
      if j = column then factor * t.entry i j else t.entry i j := by
  by_cases here : t.InRange i j
  · obtain ⟨hi, hj⟩ := inRange_iff_le.mp here
    exact entry_ofFn hi hj
  · have there : ¬ (t.scaleColumn column factor).InRange i j := by
      rw [inRange_iff_le, constraintCount_scaleColumn, layout_scaleColumn, ← inRange_iff_le]
      exact here
    rw [entry_eq_zero there, entry_eq_zero here, mul_zero, ite_self]

/-! ### The ratio test -/

theorem ratioPairs_scaleColumn (inside : column < t.layout.rhs) (factor : Rat) :
    (t.scaleColumn column factor).ratioPairs column =
      (t.ratioPairs column).map fun (a, b) => (factor * a, b) := by
  rw [ratioPairs, ratioPairs, List.map_map, constraintCount_scaleColumn]
  apply List.map_congr_left
  intro i _
  show ((t.scaleColumn column factor).entry i column, (t.scaleColumn column factor).rhs i) = _
  rw [rhs, entry_scaleColumn, entry_scaleColumn, layout_scaleColumn, if_pos rfl,
    if_neg inside.ne']
  rfl

theorem scaleOf_scaled (positive : 0 < factor) (entries : List Rat) :
    scaleOf (entries.map (factor * ·)) = factor * scaleOf entries := by
  have onward : ∀ start : Rat,
      (entries.map (factor * ·)).foldl
          (fun s a => if s < Scalar.abs a then Scalar.abs a else s) (factor * start) =
        factor * entries.foldl (fun s a => if s < Scalar.abs a then Scalar.abs a else s) start := by
    induction entries with
    | nil => exact fun _ => rfl
    | cons a rest ih =>
      intro start
      have larger : factor * start < Scalar.abs (factor * a) ↔ start < Scalar.abs a := by
        rw [scalar_abs, scalar_abs, abs_mul, abs_of_pos positive]
        exact mul_lt_mul_iff_of_pos_left positive
      have magnitude : Scalar.abs (factor * a) = factor * Scalar.abs a := by
        rw [scalar_abs, scalar_abs, abs_mul, abs_of_pos positive]
      rw [List.map_cons, List.foldl_cons, List.foldl_cons, ← ih, if_congr larger rfl rfl, magnitude,
        mul_ite]
  have whole := onward 0
  rw [mul_zero] at whole
  exact whole

/-- A ratio that is divided by the factor is better than another such one as before. -/
theorem better_scaled (positive : 0 < factor) (a b : Rat) (found : Option (Nat × Rat)) :
    leavingRow.better (b / (factor * a)) (found.map fun (i, least) => (i, least / factor)) =
      leavingRow.better (b / a) found := by
  cases found with
  | none => rfl
  | some q =>
    have less : b / (factor * a) < q.2 / factor ↔ b / a < q.2 := by
      rw [mul_comm, ← div_div]
      exact div_lt_div_iff_of_pos_right positive
    exact decide_eq_decide.mpr less

/-- The search takes the same rows if the column and its threshold are multiplied by the factor. -/
theorem leavingRow_search_scaled (positive : 0 < factor) (threshold : Rat) (i : Nat)
    (found : Option (Nat × Rat)) (pairs : List (Rat × Rat)) :
    leavingRow.search (factor * threshold) i (found.map fun (i, least) => (i, least / factor))
        (pairs.map fun (a, b) => (factor * a, b)) =
      leavingRow.search threshold i found pairs := by
  induction pairs generalizing i found with
  | nil => cases found <;> rfl
  | cons p rest ih =>
    obtain ⟨a, b⟩ := p
    have taken : (0 < factor * a ∧ factor * threshold < factor * a ∧
        leavingRow.better (b / (factor * a)) (found.map fun (i, least) => (i, least / factor))) ↔
          (0 < a ∧ threshold < a ∧ leavingRow.better (b / a) found) := by
      rw [better_scaled positive, mul_pos_iff_of_pos_left positive,
        mul_lt_mul_iff_of_pos_left positive]
    have ratio : b / (factor * a) = b / a / factor := by rw [mul_comm, div_div]
    rw [List.map_cons]
    unfold leavingRow.search
    rw [if_congr taken rfl rfl, ratio]
    split
    · exact ih (i + 1) (some (i, b / a))
    · exact ih (i + 1) found

theorem leavingRow_scaleColumn (inside : column < t.layout.rhs) (positive : 0 < factor) :
    (t.scaleColumn column factor).leavingRow column = t.leavingRow column := by
  have entries : ((t.ratioPairs column).map fun (a, b) => (factor * a, b)).map Prod.fst =
      ((t.ratioPairs column).map Prod.fst).map (factor * ·) := by
    rw [List.map_map, List.map_map]
    rfl
  have threshold : ∀ scale : Rat,
      Scalar.tolerance * (factor * scale) = factor * (Scalar.tolerance * scale) :=
    fun scale => mul_left_comm ..
  simp only [leavingRow, ratioPairs_scaleColumn inside, entries, scaleOf_scaled positive, threshold]
  exact leavingRow_search_scaled positive _ 0 none _

/-! ### The pivot -/

section
variable {row : Nat} (nonzero : t.entry row column ≠ 0) (scales : factor ≠ 0)
include nonzero scales

/-- What is taken off another row is a product of the entry in the column, which has the factor, and
of an entry of the new pivot row, which is divided by it. -/
theorem entry_pivot_scaleColumn_of_ne {i : Nat} (other : i ≠ row) (j : Nat) :
    ((t.scaleColumn column factor).pivot row column).entry i j =
      (t.pivot row column).entry i j := by
  rw [entry_pivot_everywhere, entry_pivot_everywhere, if_neg other, if_neg other,
    entry_scaleColumn, entry_scaleColumn, entry_scaleColumn, entry_scaleColumn, if_pos rfl,
    if_pos rfl]
  by_cases own : j = column
  · subst own
    rw [if_pos rfl, if_pos rfl, div_self (mul_ne_zero scales nonzero), div_self nonzero]
    ring
  · rw [if_neg own, if_neg own]
    field_simp

theorem entry_pivot_scaleColumn_row (j : Nat) :
    ((t.scaleColumn column factor).pivot row column).entry row j =
      if j = column then (t.pivot row column).entry row j
      else (t.pivot row column).entry row j / factor := by
  rw [entry_pivot_everywhere, entry_pivot_everywhere, if_pos rfl, if_pos rfl, entry_scaleColumn,
    entry_scaleColumn, if_pos rfl]
  split
  · rename_i own
    rw [own, div_self (mul_ne_zero scales nonzero), div_self nonzero]
  · rw [div_div, mul_comm]

end

/-- A positive multiple of a column has the same leaving row. The pivot on it gives the same
tableau, but for the entries of the pivot row outside of the column, which are divided by the
factor. -/
theorem pivot_of_scaleColumn (inside : column < t.layout.rhs) (positive : 0 < factor) :
    (t.scaleColumn column factor).leavingRow column = t.leavingRow column ∧
    ∀ row, t.leavingRow column = some row →
      (∀ i j, i ≠ row → ((t.scaleColumn column factor).pivot row column).entry i j =
        (t.pivot row column).entry i j) ∧
      (∀ j, j ≠ column → ((t.scaleColumn column factor).pivot row column).entry row j =
        (t.pivot row column).entry row j / factor) ∧
      ((t.scaleColumn column factor).pivot row column).entry row column =
        (t.pivot row column).entry row column := by
  refine ⟨leavingRow_scaleColumn inside positive, fun row leaving => ?_⟩
  have nonzero : t.entry row column ≠ 0 := (positive_of_leavingRow leaving).2.1.ne'
  refine ⟨fun i j other => ?_, fun j other => ?_, ?_⟩
  · exact entry_pivot_scaleColumn_of_ne nonzero positive.ne' other j
  · rw [entry_pivot_scaleColumn_row nonzero positive.ne', if_neg other]
  · rw [entry_pivot_scaleColumn_row nonzero positive.ne', if_pos rfl]

/-- All entries of the column come to lie far below the tolerance. -/
theorem pivot_of_scaleColumn_tiny :
    0 < tiedRows.layout.rhs ∧ (0 : Rat) < 1 / 10 ^ 12 ∧
      (tiedRows.scaleColumn 0 (1 / 10 ^ 12)).columnScale 0 < Scalar.tolerance ∧
      (tiedRows.scaleColumn 0 (1 / 10 ^ 12)).leavingRow 0 = some 1 ∧
      ((tiedRows.scaleColumn 0 (1 / 10 ^ 12)).pivot 1 0).rhs 1 = 5 * 10 ^ 12 ∧
      ((tiedRows.scaleColumn 0 (1 / 10 ^ 12)).pivot 1 0).rhs 2 = 11 := by
  have inside : 0 < tiedRows.layout.rhs := by decide
  have positive : (0 : Rat) < 1 / 10 ^ 12 := by norm_num
  have leaving : tiedRows.leavingRow 0 = some 1 := by decide +kernel
  obtain ⟨same, pivots⟩ := pivot_of_scaleColumn inside positive
  obtain ⟨others, own, -⟩ := pivots 1 leaving
  refine ⟨inside, positive, by decide +kernel, by rw [same, leaving], ?_, ?_⟩
  · have value : (tiedRows.pivot 1 0).entry 1 5 = 5 := by decide +kernel
    show ((tiedRows.scaleColumn 0 _).pivot 1 0).entry 1 5 = _
    rw [own 5 (by decide), value]
    norm_num
  · have value : (tiedRows.pivot 1 0).entry 2 5 = 11 := by decide +kernel
    show ((tiedRows.scaleColumn 0 _).pivot 1 0).entry 2 5 = _
    rw [others 2 5 (by decide), value]

end Simplex.Tableau
