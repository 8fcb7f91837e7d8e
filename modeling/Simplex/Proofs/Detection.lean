import Simplex.Proofs.Basis
import Simplex.Proofs.Handover
import Simplex.Solution

/-!
# The detection of basic columns

A column is basic in a row if one entry counts as one and all others count as zero, that of the
objective row included (`unitRow_eq_some_iff`); each row takes the first such column
(`basicColumn_eq_some_iff`). An exact unit column without a cost is always detected, and if all
detected columns are exact, the values read from them are those of the basic solution
(`basicValue_eq`).
-/

namespace Simplex.Tableau

section
variable {α : Type} [Scalar α]

def LikeOne (v : α) : Prop := Scalar.abs (v - 1) < Scalar.tolerance

/-- An entry that counts as zero, and not as one. -/
def LikeZero (v : α) : Prop := ¬ LikeOne v ∧ ¬ Scalar.tolerance ≤ Scalar.abs v

theorem unitRow_search_found_iff {i r r' : Nat} {entries : List α} :
    unitRow.search i (some r) entries = some r' ↔ r = r' ∧ ∀ v ∈ entries, LikeZero v := by
  induction entries generalizing i with
  | nil => simp [unitRow.search]
  | cons v rest ih =>
    rw [unitRow.search, List.forall_mem_cons]
    by_cases one : Scalar.abs (v - 1) < Scalar.tolerance
    · rw [if_pos one]
      exact ⟨nofun, fun all => absurd one all.2.1.1⟩
    · rw [if_neg one]
      by_cases large : Scalar.tolerance ≤ Scalar.abs v
      · rw [if_pos large]
        exact ⟨nofun, fun all => absurd large all.2.1.2⟩
      · rw [if_neg large, ih]
        exact ⟨fun all => ⟨all.1, ⟨one, large⟩, all.2⟩, fun all => ⟨all.1, all.2.2⟩⟩

theorem unitRow_search_iff {i r : Nat} {entries : List α} :
    unitRow.search i none entries = some r ↔
      ∃ k, ∃ hk : k < entries.length, r = i + k ∧ LikeOne entries[k] ∧
        ∀ l, ∀ hl : l < entries.length, l ≠ k → LikeZero entries[l] := by
  induction entries generalizing i with
  | nil => simp [unitRow.search]
  | cons v rest ih =>
    unfold unitRow.search
    by_cases one : Scalar.abs (v - 1) < Scalar.tolerance
    · rw [if_pos one, if_neg (by simp), unitRow_search_found_iff]
      constructor
      · rintro ⟨rfl, zeros⟩
        refine ⟨0, by simp, rfl, one, fun l hl other => ?_⟩
        cases l with
        | zero => exact absurd rfl other
        | succ l => exact zeros _ (List.getElem_mem (by simpa using hl))
      · rintro ⟨k, hk, rfl, -, zeros⟩
        cases k with
        | zero =>
          refine ⟨rfl, fun w hw => ?_⟩
          obtain ⟨l, hl, rfl⟩ := List.getElem_of_mem hw
          exact zeros (l + 1) (by simpa using hl) (by omega)
        | succ k => exact absurd one (zeros 0 (by simp) (by omega)).1
    · rw [if_neg one]
      by_cases large : Scalar.tolerance ≤ Scalar.abs v
      · rw [if_pos large]
        refine ⟨nofun, ?_⟩
        rintro ⟨k, hk, rfl, unit, zeros⟩
        cases k with
        | zero => exact absurd unit one
        | succ k => exact absurd large (zeros 0 (by simp) (by omega)).2
      · rw [if_neg large, ih]
        constructor
        · rintro ⟨k, hk, rfl, unit, zeros⟩
          refine ⟨k + 1, by simpa using hk, by omega, unit, fun l hl other => ?_⟩
          cases l with
          | zero => exact ⟨one, large⟩
          | succ l => exact zeros l (by simpa using hl) (by omega)
        · rintro ⟨k, hk, rfl, unit, zeros⟩
          cases k with
          | zero => exact absurd unit one
          | succ k =>
            refine ⟨k, by simpa using hk, by omega, unit, fun l hl other => ?_⟩
            exact zeros (l + 1) (by simpa using hl) (by omega)

theorem unitRow_eq_some_iff {t : Tableau α} {i j : Nat} :
    t.unitRow j = some i ↔ i < t.constraintCount ∧ LikeOne (t.entry i j) ∧
      ∀ k ≤ t.constraintCount, k ≠ i → LikeZero (t.entry k j) := by
  have length : (t.column j).length = t.constraintCount + 1 := by
    rw [column, List.length_map, List.length_range, length_rows]
  have entries : ∀ k (hk : k < (t.column j).length), (t.column j)[k] = t.entry k j := by
    intro k hk
    simp [column]
  rw [unitRow, Option.filter_eq_some_iff, unitRow_search_iff]
  constructor
  · rintro ⟨⟨k, hk, rfl, one, zeros⟩, inside⟩
    rw [Nat.zero_add] at inside ⊢
    have other : k ≠ t.constraintCount := of_decide_eq_true inside
    rw [entries k hk] at one
    refine ⟨by omega, one, fun l hl different => ?_⟩
    rw [← entries l (by omega)]
    exact zeros l (by omega) different
  · rintro ⟨hi, one, zeros⟩
    refine ⟨⟨i, by omega, (Nat.zero_add i).symm, ?_, fun l hl different => ?_⟩, ?_⟩
    · rw [entries]
      exact one
    · rw [entries]
      exact zeros l (by omega) different
    · simp [hi.ne]

/-- The first column that is found basic in a row. -/
def basicColumn (t : Tableau α) (i : Nat) : Option Nat :=
  ((List.range t.layout.rhs).map t.unitRow).idxOf? (some i)

theorem getElem?_basis {t : Tableau α} {i : Nat} (hi : i < t.constraintCount) :
    t.basis[i]? = some (t.basicColumn i) := by
  simp [basis, basicColumn, hi]

theorem basicColumn_eq_some_iff {t : Tableau α} {i j : Nat} :
    t.basicColumn i = some j ↔
      j < t.layout.rhs ∧ t.unitRow j = some i ∧ ∀ k < j, t.unitRow k ≠ some i := by
  rw [basicColumn, List.idxOf?_eq_some_iff]
  simp only [List.length_map, List.length_range, List.getElem_map, List.getElem_range]
  exact ⟨fun ⟨bound, unit, first⟩ => ⟨bound, unit, first⟩,
    fun ⟨bound, unit, first⟩ => ⟨bound, unit, first⟩⟩

theorem exists_basicColumn {t : Tableau α} {i j : Nat} (hj : j < t.layout.rhs)
    (unit : t.unitRow j = some i) : ∃ k ≤ j, t.basicColumn i = some k := by
  cases found : t.basicColumn i with
  | none =>
    have absent := List.idxOf?_eq_none_iff.mp found
    exact absurd (List.mem_map.mpr ⟨j, List.mem_range.mpr hj, unit⟩) absent
  | some k =>
    refine ⟨k, ?_, rfl⟩
    by_contra late
    exact (basicColumn_eq_some_iff.mp found).2.2 j (by omega) unit

/-! ### Rows of basic columns -/

theorem unitRow_of_basicColumn {t : Tableau α} {i j : Nat} (h : t.basicColumn i = some j) :
    t.unitRow j = some i := (basicColumn_eq_some_iff.mp h).2.1

theorem basicColumn_of_idxOf? {t : Tableau α} {i j : Nat} (h : t.basis.idxOf? (some j) = some i) :
    i < t.constraintCount ∧ t.basicColumn i = some j := by
  obtain ⟨bound, same, -⟩ := List.idxOf?_eq_some_iff.mp h
  have hi : i < t.constraintCount := by
    rw [← length_basis]
    exact bound
  have both := getElem?_basis hi
  rw [List.getElem?_eq_getElem bound, same] at both
  exact ⟨hi, (Option.some.inj both).symm⟩

theorem basicColumn_ne_of_idxOf?_none {t : Tableau α} {j : Nat}
    (h : t.basis.idxOf? (some j) = none) : ∀ i < t.constraintCount, t.basicColumn i ≠ some j := by
  intro i hi same
  have member := List.mem_of_getElem? (getElem?_basis hi)
  rw [same] at member
  exact List.idxOf?_eq_none_iff.mp h member

end

/-! ### Exact columns -/

theorem likeOne_one : LikeOne (1 : Rat) := by
  rw [LikeOne, sub_self, scalar_abs, abs_zero]
  exact tolerance_pos

theorem likeZero_zero : LikeZero (0 : Rat) := by
  refine ⟨?_, ?_⟩
  · rw [LikeOne, zero_sub, scalar_abs, abs_neg, abs_one, scalar_tolerance]
    norm_num
  · rw [scalar_abs, abs_zero]
    exact tolerance_pos.not_ge

variable {t : Tableau Rat}

theorem unitRow_of_unitAt {i j : Nat} (unit : t.UnitAt i j) (hi : i < t.constraintCount)
    (free : t.entry t.constraintCount j = 0) : t.unitRow j = some i := by
  refine unitRow_eq_some_iff.mpr ⟨hi, ?_, fun k hk other => ?_⟩
  · rw [unit.2 i hi, if_pos rfl]
    exact likeOne_one
  · rcases Nat.lt_or_eq_of_le hk with inside | rfl
    · rw [unit.2 k inside, if_neg other]
      exact likeZero_zero
    · rw [free]
      exact likeZero_zero

/-- An exact unit column without a cost is found, or one in front of it. -/
theorem UnitAt.exists_basicColumn {i j : Nat} (unit : t.UnitAt i j) (hi : i < t.constraintCount)
    (free : t.entry t.constraintCount j = 0) : ∃ k ≤ j, t.basicColumn i = some k :=
  Tableau.exists_basicColumn unit.1 (unitRow_of_unitAt unit hi free)

/-- Zero within the tolerance. -/
def chopped (v : Rat) : Rat := if Scalar.abs v < Scalar.tolerance then 0 else v

theorem chopped_nonneg {v : Rat} (h : 0 ≤ v) : 0 ≤ chopped v := by
  unfold chopped
  split
  · exact le_refl 0
  · exact h

theorem abs_chopped_sub_le (v : Rat) : |chopped v - v| ≤ Scalar.tolerance := by
  unfold chopped
  split
  · rename_i small
    rw [scalar_abs] at small
    rw [zero_sub, abs_neg]
    exact small.le
  · rw [sub_self, abs_zero]
    exact tolerance_pos.le

theorem basicValue_eq (h : t.IsBasis t.basicColumn) (j : Nat) :
    t.basicValue t.basis j = chopped (t.basicPoint t.basicColumn j) := by
  unfold basicValue
  cases found : t.basis.idxOf? (some j) with
  | none =>
    rw [basicPoint, spread_nonbasic _ (basicColumn_ne_of_idxOf?_none found), chopped, scalar_abs,
      abs_zero, if_pos tolerance_pos]
  | some row =>
    obtain ⟨hr, basic⟩ := basicColumn_of_idxOf? found
    rw [basicPoint, spread_basic h _ hr basic]
    rfl

end Simplex.Tableau
