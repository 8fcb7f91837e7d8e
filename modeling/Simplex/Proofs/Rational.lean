import Mathlib.Algebra.BigOperators.Field
import Mathlib.Algebra.BigOperators.Fin
import Mathlib.Algebra.BigOperators.Intervals
import Mathlib.Algebra.Order.BigOperators.Group.Finset
import Mathlib.Algebra.Order.BigOperators.Group.List
import Mathlib.Algebra.Order.Field.Rat
import Mathlib.Algebra.Order.Ring.Abs
import Mathlib.Data.List.GetD
import Mathlib.Data.Rat.Lemmas
import Mathlib.Tactic.FieldSimp
import Mathlib.Tactic.Linarith
import Mathlib.Tactic.NormNum
import Mathlib.Tactic.Ring
import Simplex.Scalar

/-!
# Scalars over exact rationals

The scalar operations on rationals are those of an ordered field, and the tolerance is positive.
-/

namespace Simplex

theorem scalar_abs (v : Rat) : Scalar.abs v = |v| := by
  show Rat.abs v = |v|
  by_cases h : 0 ≤ v
  · rw [abs_of_nonneg h, Rat.abs_of_nonneg h]
  · have h' : v ≤ 0 := le_of_not_ge h
    rw [abs_of_nonpos h', Rat.abs_of_nonpos h']

theorem scalar_tolerance : (Scalar.tolerance : Rat) = 1 / 1000000000 := by
  show mkRat 1 1000000000 = _
  rw [Rat.mkRat_eq_div]
  norm_num

theorem tolerance_pos : 0 < (Scalar.tolerance : Rat) := by
  rw [scalar_tolerance]
  norm_num

end Simplex
