import Simplex.Proofs.Detection
import Simplex.Proofs.DoubleDifferences

/-!
# Unit columns among doubles

The basis takes for each row the first column that counts as its unit vector (`basis_eq_some_iff`).
A double that is small never counts as one, however the difference from one is rounded, but a NaN
is neither near one nor large, so it counts as zero (`likeZero_iff`). The basis is made of unit
columns just if no column in it holds a NaN (`unitColumns_of_basis`).
-/

namespace Simplex.Tableau

/-! ### Any arithmetic -/

section
variable {α : Type} [Scalar α] {t : Tableau α} {i j : Nat}

/-- The columns that count as one in a row and satisfy `zero` in every other row, that of the
objective included. -/
def unitColumns (t : Tableau α) (zero : α → Prop) (i : Nat) : Set Nat :=
  {j | j < t.layout.rhs ∧ LikeOne (t.entry i j) ∧
    ∀ k ≤ t.objectiveRow, k ≠ i → zero (t.entry k j)}

theorem mem_unitColumns_iff (hi : i < t.constraintCount) :
    j ∈ t.unitColumns LikeZero i ↔ j < t.layout.rhs ∧ t.unitRow j = some i := by
  rw [unitRow_eq_some_iff]
  exact ⟨fun ⟨inside, one, zeros⟩ => ⟨inside, hi, one, zeros⟩,
    fun ⟨inside, _, one, zeros⟩ => ⟨inside, one, zeros⟩⟩

/-- The basis has the first column of those that count as the unit vector of a row. -/
theorem basis_eq_some_iff (hi : i < t.constraintCount) :
    t.basis[i]? = some (some j) ↔ IsLeast (t.unitColumns LikeZero i) j := by
  rw [getElem?_basis hi, Option.some_inj, basicColumn_eq_some_iff, IsLeast,
    mem_unitColumns_iff hi, and_assoc]
  refine and_congr_right fun inside => and_congr_right fun unit => ?_
  constructor
  · intro first k member
    exact not_lt.mp fun before => first k before ((mem_unitColumns_iff hi).mp member).2
  · intro least k before unit'
    have member := (mem_unitColumns_iff hi).mpr ⟨before.trans inside, unit'⟩
    exact absurd before (not_lt.mpr (least member))

theorem basis_row_unique {i' : Nat} (hi : i < t.constraintCount) (hi' : i' < t.constraintCount)
    (basic : t.basis[i]? = some (some j)) (basic' : t.basis[i']? = some (some j)) : i = i' := by
  have unit := ((mem_unitColumns_iff hi).mp ((basis_eq_some_iff hi).mp basic).1).2
  have unit' := ((mem_unitColumns_iff hi').mp ((basis_eq_some_iff hi').mp basic').1).2
  exact Option.some.inj (unit.symm.trans unit')

end

/-! ### What counts as one and as zero -/

/-- Smaller in magnitude than the tolerance. -/
def IsSmall (v : Float) : Prop := Scalar.abs v < Scalar.tolerance

theorem parts_tolerance :
    Decimal.parts (Scalar.tolerance : Float) = .finite false 4835703278458517 (-82) := by
  decide +kernel

theorem isFinite_tolerance : (Scalar.tolerance : Float).isFinite = true := by decide +kernel

theorem value_tolerance_lt : Double.value Scalar.tolerance < 1 / 4 := by
  rw [Double.value, parts_tolerance]
  norm_num

/-- One less a small double rounds to no less than half, which is large. -/
theorem not_likeOne_of_isSmall {v : Float} (small : IsSmall v) : ¬ LikeOne v := by
  intro one
  obtain ⟨finite, size⟩ := (Double.abs_lt_iff isFinite_tolerance).mp small
  obtain ⟨finite', near⟩ := (Double.abs_lt_iff isFinite_tolerance).mp one
  have nearest := Double.isNearest_abs_sub finite Double.denotes_one.isFinite
  have unit : Double.value 1 = 1 := by
    rw [Double.value_of_denotes Double.denotes_one]
    norm_num [Decimal.leastNormal]
  obtain ⟨finite'', rounded⟩ := Double.isFinite_abs finite'
  have closest := nearest.nearest finite'' 1 Double.denotes_one.isFinite
  rw [unit, rounded] at closest
  have bound := value_tolerance_lt
  have lower := abs_sub_abs_le_abs_sub (1 : ℚ) (Double.value v)
  have upper := abs_abs_sub_abs_le (1 : ℚ) (1 - Double.value v)
  rw [abs_one, abs_sub_comm 1 (Double.value v)] at lower upper
  rw [sub_sub_cancel] at upper
  have apart := neg_abs_le (|Double.value (v - 1)| - |Double.value v - 1|)
  linarith

theorem not_isSmall_of_isNaN {v : Float} (nan : v.isNaN = true) : ¬ IsSmall v := by
  have own : v.abs.isNaN = true := by rwa [Double.isNaN_abs]
  exact Double.not_lt_of_isNaN (Or.inl own)

theorem not_likeOne_of_isNaN {v : Float} (nan : v.isNaN = true) : ¬ LikeOne v :=
  not_isSmall_of_isNaN (Double.isNaN_sub nan 1)

/-- A NaN is neither near one nor large. -/
theorem likeZero_iff {v : Float} : LikeZero v ↔ IsSmall v ∨ v.isNaN = true := by
  have tolerance := Double.isNaN_of_isFinite isFinite_tolerance
  constructor
  · rintro ⟨-, refused⟩
    by_cases nan : v.isNaN = true
    · exact Or.inr nan
    · have number : v.abs.isNaN = false := by rwa [Double.isNaN_abs, Bool.eq_false_iff]
      refine Or.inl (by_contra fun large => refused ?_)
      exact (Double.not_lt_iff number tolerance).mp large
  · rintro (small | nan)
    · refine ⟨not_likeOne_of_isSmall small, fun large => ?_⟩
      exact (Double.not_lt_iff (Double.lt_iff.mp small).1 tolerance).mpr large small
    · have own : v.abs.isNaN = true := by rwa [Double.isNaN_abs]
      exact ⟨not_likeOne_of_isNaN nan, Double.not_le_of_isNaN (Or.inr own)⟩

/-! ### The basis -/

section
variable {t : Tableau Float} {i j : Nat}

def HoldsNaN (t : Tableau Float) (j : Nat) : Prop :=
  ∃ k ≤ t.objectiveRow, (t.entry k j).isNaN = true

instance (t : Tableau Float) (j : Nat) : Decidable (t.HoldsNaN j) :=
  inferInstanceAs (Decidable (∃ k ≤ _, _))

theorem mem_unitColumns_isSmall_iff :
    j ∈ t.unitColumns IsSmall i ↔ j ∈ t.unitColumns LikeZero i ∧ ¬ t.HoldsNaN j := by
  constructor
  · rintro ⟨inside, one, zeros⟩
    refine ⟨⟨inside, one, fun k hk other => likeZero_iff.mpr (Or.inl (zeros k hk other))⟩, ?_⟩
    rintro ⟨k, hk, nan⟩
    by_cases same : k = i
    · subst same
      exact not_likeOne_of_isNaN nan one
    · exact not_isSmall_of_isNaN nan (zeros k hk same)
  · rintro ⟨⟨inside, one, zeros⟩, numbers⟩
    refine ⟨inside, one, fun k hk other => ?_⟩
    exact (likeZero_iff.mp (zeros k hk other)).resolve_right fun nan => numbers ⟨k, hk, nan⟩

/-- The first unit column and the first that counts as one are the same if no NaN is in the basis,
since the first that counts as one is in the basis. -/
theorem isLeast_unitColumns_iff (hi : i < t.constraintCount)
    (numbers : ∀ k, some k ∈ t.basis → ¬ t.HoldsNaN k) :
    IsLeast (t.unitColumns LikeZero i) j ↔ IsLeast (t.unitColumns IsSmall i) j := by
  have unit : ∀ k, IsLeast (t.unitColumns LikeZero i) k → k ∈ t.unitColumns IsSmall i :=
    fun k least => mem_unitColumns_isSmall_iff.mpr
      ⟨least.1, numbers k (List.mem_of_getElem? ((basis_eq_some_iff hi).mpr least))⟩
  have weaker : t.unitColumns IsSmall i ⊆ t.unitColumns LikeZero i :=
    fun k member => (mem_unitColumns_isSmall_iff.mp member).1
  constructor
  · exact fun least => ⟨unit j least, fun k member => least.2 (weaker member)⟩
  · intro least
    have some : (t.unitColumns LikeZero i).Nonempty := ⟨j, weaker least.1⟩
    have first : IsLeast (t.unitColumns LikeZero i) (sInf (t.unitColumns LikeZero i)) :=
      ⟨Nat.sInf_mem some, fun k => Nat.sInf_le⟩
    have same : j = sInf (t.unitColumns LikeZero i) :=
      le_antisymm (least.2 (unit _ first)) (first.2 (weaker least.1))
    exact same ▸ first

/-- The basis has a column for a row if and only if that is the first unit column of the row, up to
columns with a NaN, which it takes for zero. -/
theorem unitColumns_of_basis (t : Tableau Float) :
    t.basis.length = t.constraintCount ∧
    (∀ i < t.constraintCount, ∀ j, t.basis[i]? = some (some j) ↔
      IsLeast (t.unitColumns (fun v => IsSmall v ∨ v.isNaN = true) i) j) ∧
    ((∀ i < t.constraintCount, ∀ j, t.basis[i]? = some (some j) ↔
        IsLeast (t.unitColumns IsSmall i) j) ↔
      ∀ j, some j ∈ t.basis → ¬ t.HoldsNaN j) ∧
    ∀ i i' j : Nat, t.basis[i]? = some (some j) → t.basis[i']? = some (some j) → i = i' := by
  have inside : ∀ i j : Nat, t.basis[i]? = some (some j) → i < t.constraintCount := fun i j basic => by
    rw [← length_basis]
    exact (List.getElem?_eq_some_iff.mp basic).1
  have counted : LikeZero = fun v => IsSmall v ∨ v.isNaN = true :=
    funext fun v => propext likeZero_iff
  refine ⟨t.length_basis, fun i hi j => ?_, ⟨fun claimed j member => ?_, fun numbers i hi j => ?_⟩,
    fun i i' j basic basic' => ?_⟩
  · rw [← counted]
    exact basis_eq_some_iff hi
  · obtain ⟨i, basic⟩ := List.mem_iff_getElem?.mp member
    have least := (claimed i (inside i j basic) j).mp basic
    exact (mem_unitColumns_isSmall_iff.mp least.1).2
  · rw [basis_eq_some_iff hi]
    exact isLeast_unitColumns_iff hi numbers
  · exact basis_row_unique (inside i j basic) (inside i' j basic') basic basic'

/-- Two rows and a decision variable, whose column is one in the first row and `entry` in the
second. -/
def beside (entry : Float) : Tableau Float :=
  ofFn { decision := 1, slack := 0, surplus := 0, artificial := 0 } 2 fun i j =>
    (([[1, 4], [entry, 2], [0, 0]].getD i []).getD j 0)

theorem unitColumns_of_basis_small :
    (beside 1e-10).basis = [some 0, none] ∧ IsLeast ((beside 1e-10).unitColumns IsSmall 0) 0 ∧
      (beside (1 / 0)).basis = [none, none] := by
  obtain ⟨-, -, claimed, -⟩ := unitColumns_of_basis (beside 1e-10)
  have basis : (beside 1e-10).basis = [some 0, none] := by decide +kernel
  have number : ¬ (beside 1e-10).HoldsNaN 0 := by decide +kernel
  refine ⟨basis, (claimed.mpr fun j member => ?_) 0 (by decide +kernel) 0 |>.mp ?_,
    by decide +kernel⟩
  · rw [basis] at member
    obtain rfl : j = 0 := by simpa using member
    exact number
  · rw [basis]
    rfl

/-- A NaN beside the one does not keep the column out of the basis. -/
theorem basis_with_nan :
    (beside (0 / 0)).basis = [some 0, none] ∧ ¬ IsSmall ((beside (0 / 0)).entry 1 0) ∧
      ¬ ∀ i < (beside (0 / 0)).constraintCount, ∀ j, (beside (0 / 0)).basis[i]? = some (some j) ↔
        IsLeast ((beside (0 / 0)).unitColumns IsSmall i) j := by
  have basis : (beside (0 / 0)).basis = [some 0, none] := by decide +kernel
  have nan : ((beside (0 / 0)).entry 1 0).isNaN = true := by decide +kernel
  refine ⟨basis, not_isSmall_of_isNaN nan, fun claimed => ?_⟩
  have least := (claimed 0 (by decide +kernel) 0).mp (by rw [basis]; rfl)
  exact not_isSmall_of_isNaN nan (least.1.2.2 1 (by decide +kernel) (by decide))

end

end Simplex.Tableau
