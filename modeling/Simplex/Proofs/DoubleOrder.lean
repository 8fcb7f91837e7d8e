import Simplex.Proofs.NearestDouble

/-!
# The order of doubles

A double that is a number has a place among the rationals with two ends, the infinities being the
ends (`extended`). Numbers compare as their places do (`compare_eq`) and a NaN with nothing, so
`lt_iff` and `le_iff` turn every comparison of doubles into one of a linear order.
-/

namespace Simplex.Double

open Float.Model (UnpackedFloat)

/-- The value of a finite double, and an end of the order for the others. -/
def extended (x : Float) : WithBot (WithTop ℚ) :=
  if x.isFinite then ((value x : WithTop ℚ) : WithBot (WithTop ℚ)) else if x < 0 then ⊥ else ⊤

/-- The double is one of the two infinities. -/
def IsInfinity (x : Float) (negative : Bool) : Prop :=
  x.toModel.unpack = .infinity (signOf negative)

section
variable {x y : Float} {n n' : Bool} {m m' : Nat} {e e' : Int}

/-! ### Values -/

theorem value_of_isZero (h : IsZero x n) : value x = 0 := by
  rw [value, parts_of_isZero h]
  simp

theorem value_of_denotes (h : Denotes x n m e) :
    value x = (if n then -1 else 1) * (m * 2 ^ e) := by
  rw [value, parts_of_denotes h]

theorem Denotes.magnitude_pos (h : Denotes x n m e) : (0 : ℚ) < m * 2 ^ e :=
  mul_pos (Nat.cast_pos.mpr h.canonical.pos) (two_zpow_pos e)

theorem Denotes.value_pos (h : Denotes x false m e) : 0 < value x := by
  rw [value_of_denotes h, if_neg Bool.false_ne_true, one_mul]
  exact h.magnitude_pos

theorem Denotes.value_neg (h : Denotes x true m e) : value x < 0 := by
  rw [value_of_denotes h, if_pos rfl, neg_one_mul]
  exact neg_lt_zero.mpr h.magnitude_pos

theorem Denotes.abs_value (h : Denotes x n m e) : |value x| = m * 2 ^ e := by
  cases n
  · rw [abs_of_pos h.value_pos, value_of_denotes h, if_neg Bool.false_ne_true, one_mul]
  · rw [abs_of_neg h.value_neg, value_of_denotes h, if_pos rfl, neg_one_mul, neg_neg]

theorem extended_of_isFinite (finite : x.isFinite = true) :
    extended x = ((value x : WithTop ℚ) : WithBot (WithTop ℚ)) := if_pos finite

theorem extended_of_isInfinity (h : IsInfinity x n) : extended x = if n then ⊥ else ⊤ := by
  have infinite : x.isFinite = false := by
    rw [isFinite_unpacked, h]
    rfl
  have sign : x < 0 ↔ n = true := by
    rw [lt_zero, h]
    cases n <;> decide
  rw [extended, infinite, if_neg Bool.false_ne_true]
  simp only [sign]

theorem isNaN_of_isFinite (finite : x.isFinite = true) : x.isNaN = false := by
  rcases cases_of_isFinite finite with ⟨n, zero, -⟩ | ⟨n, m, e, denotes, -⟩
  · rw [isNaN_unpacked, zero]
    rfl
  · rw [isNaN_unpacked, denotes.unpack_eq]
    rfl

theorem cases_of_number (number : x.isNaN = false) :
    (∃ n, IsInfinity x n) ∨ x.isFinite = true := by
  rw [isNaN_unpacked] at number
  rw [isFinite_unpacked]
  cases unpacked : x.toModel.unpack with
  | notANumber =>
    rw [unpacked] at number
    cases number
  | infinity s =>
    cases s with
    | negative => exact Or.inl ⟨true, unpacked⟩
    | positive => exact Or.inl ⟨false, unpacked⟩
  | zero s => exact Or.inr rfl
  | finite s m e pos => exact Or.inr rfl

theorem unpack_of_isNaN (nan : x.isNaN = true) : x.toModel.unpack = .notANumber := by
  rw [isNaN_unpacked] at nan
  cases unpacked : x.toModel.unpack <;> rw [unpacked] at nan <;> first | rfl | cases nan

/-! ### Comparisons -/

/-- The order of the pairs of the grid is the lexicographic one, the exponent first. -/
theorem OnGrid.compare_eq (grid : OnGrid m e) (grid' : OnGrid m' e') :
    (compare e e').then (compare m m') = cmp ((m : ℚ) * 2 ^ e) (m' * 2 ^ e') := by
  rcases lt_trichotomy e e' with lower | rfl | higher
  · have below := grid.add_one_le_of_exponent_lt grid' lower
    have less : (m : ℚ) * 2 ^ e < m' * 2 ^ e' := by linarith [two_zpow_pos e]
    rw [compare_lt_iff_lt.mpr lower, (cmp_eq_lt_iff _ _).mpr less]
    rfl
  · have scaled : StrictMono fun k : ℕ => (k : ℚ) * 2 ^ e := fun a b less =>
      mul_lt_mul_of_pos_right (Nat.cast_lt.mpr less) (two_zpow_pos e)
    rw [compare_eq_iff_eq.mpr rfl, scaled.cmp_map_eq]
    exact (cmp_eq_compare m m').symm
  · have above := grid'.add_one_le_of_exponent_lt grid higher
    have greater : (m' : ℚ) * 2 ^ e' < m * 2 ^ e := by linarith [two_zpow_pos e']
    rw [compare_gt_iff_gt.mpr higher, (cmp_eq_gt_iff _ _).mpr greater]
    rfl

theorem compare_of_isFinite (hx : x.isFinite = true) (hy : y.isFinite = true) :
    x.toModel.unpack.compare y.toModel.unpack = some (cmp (value x) (value y)) := by
  rcases cases_of_isFinite hx with ⟨n, zero, -⟩ | ⟨n, m, e, denotes, -⟩ <;>
    rcases cases_of_isFinite hy with ⟨n', zero', -⟩ | ⟨n', m', e', denotes', -⟩
  · rw [value_of_isZero zero, value_of_isZero zero', zero, zero', cmp_self_eq_eq]
    rfl
  · rw [value_of_isZero zero, zero, denotes'.unpack_eq]
    cases n'
    · rw [(cmp_eq_lt_iff _ _).mpr denotes'.value_pos]
      rfl
    · rw [(cmp_eq_gt_iff _ _).mpr denotes'.value_neg]
      rfl
  · rw [value_of_isZero zero', zero', denotes.unpack_eq]
    cases n
    · rw [(cmp_eq_gt_iff _ _).mpr denotes.value_pos]
      rfl
    · rw [(cmp_eq_lt_iff _ _).mpr denotes.value_neg]
      rfl
  · have pairs := denotes.canonical.onGrid.compare_eq denotes'.canonical.onGrid
    rw [denotes.unpack_eq, denotes'.unpack_eq]
    cases n <;> cases n'
    · rw [value_of_denotes denotes, value_of_denotes denotes', if_neg Bool.false_ne_true, one_mul,
        one_mul, ← pairs]
      rfl
    · rw [(cmp_eq_gt_iff _ _).mpr (denotes'.value_neg.trans denotes.value_pos)]
      rfl
    · rw [(cmp_eq_lt_iff _ _).mpr (denotes.value_neg.trans denotes'.value_pos)]
      rfl
    · -- The order of negative doubles is that of their magnitudes turned round.
      have mirrored : StrictAnti fun q : ℚ => -1 * q := fun a b less => by linarith
      rw [value_of_denotes denotes, value_of_denotes denotes', if_pos rfl, mirrored.cmp_map_eq,
        ← cmp_swap, ← pairs]
      rfl

theorem IsInfinity.cmp_extended (h : IsInfinity x n) (finite : y.isFinite = true) :
    cmp (extended x) (extended y) = if n then .lt else .gt := by
  rw [extended_of_isInfinity h, extended_of_isFinite finite]
  cases n
  · exact (cmp_eq_gt_iff _ _).mpr (WithBot.coe_lt_coe.mpr (WithTop.coe_lt_top _))
  · exact (cmp_eq_lt_iff _ _).mpr (WithBot.bot_lt_coe _)

/-- Numbers compare as their places in the order. -/
theorem compare_eq (hx : x.isNaN = false) (hy : y.isNaN = false) :
    x.toModel.unpack.compare y.toModel.unpack = some (cmp (extended x) (extended y)) := by
  rcases cases_of_number hx with ⟨n, infinite⟩ | finite <;>
    rcases cases_of_number hy with ⟨n', infinite'⟩ | finite'
  · rw [extended_of_isInfinity infinite, extended_of_isInfinity infinite', infinite, infinite']
    cases n <;> cases n' <;> rfl
  · rw [infinite.cmp_extended finite', infinite]
    rcases cases_of_isFinite finite' with ⟨n', zero, -⟩ | ⟨n', m, e, denotes, -⟩
    · rw [zero]
      cases n <;> rfl
    · rw [denotes.unpack_eq]
      cases n <;> rfl
  · rw [← cmp_swap, infinite'.cmp_extended finite, infinite']
    rcases cases_of_isFinite finite with ⟨n, zero, -⟩ | ⟨n, m, e, denotes, -⟩
    · rw [zero]
      cases n' <;> rfl
    · rw [denotes.unpack_eq]
      cases n' <;> rfl
  · have embedded : StrictMono fun q : ℚ => ((q : WithTop ℚ) : WithBot (WithTop ℚ)) :=
      WithBot.coe_strictMono.comp WithTop.coe_strictMono
    rw [compare_of_isFinite finite finite', extended_of_isFinite finite,
      extended_of_isFinite finite', embedded.cmp_map_eq]

theorem compare_of_isNaN (h : x.isNaN = true ∨ y.isNaN = true) :
    x.toModel.unpack.compare y.toModel.unpack = none := by
  rcases h with nan | nan
  · rw [unpack_of_isNaN nan]
    rfl
  · rw [unpack_of_isNaN nan]
    cases x.toModel.unpack <;> rfl

/-- A double is less than another if both are numbers and their places are in this order. -/
theorem lt_iff : x < y ↔ x.isNaN = false ∧ y.isNaN = false ∧ extended x < extended y := by
  have unfolded : x < y ↔ x.toModel.unpack.compare y.toModel.unpack = some .lt := by
    show decide (x.toModel.unpack.lt y.toModel.unpack = true) = true ↔ _
    rw [decide_eq_true_iff, UnpackedFloat.lt, beq_iff_eq]
  rw [unfolded]
  by_cases numbers : x.isNaN = false ∧ y.isNaN = false
  · rw [compare_eq numbers.1 numbers.2, Option.some_inj, cmp_eq_lt_iff]
    exact ⟨fun less => ⟨numbers.1, numbers.2, less⟩, fun all => all.2.2⟩
  · rw [compare_of_isNaN (by grind)]
    exact ⟨fun never => (by cases never), fun all => absurd ⟨all.1, all.2.1⟩ numbers⟩

theorem lt_iff_of_isFinite (hx : x.isFinite = true) (hy : y.isFinite = true) :
    x < y ↔ value x < value y := by
  rw [lt_iff, extended_of_isFinite hx, extended_of_isFinite hy, WithBot.coe_lt_coe,
    WithTop.coe_lt_coe]
  simp only [isNaN_of_isFinite hx, isNaN_of_isFinite hy, true_and]

theorem le_iff : x ≤ y ↔ x.isNaN = false ∧ y.isNaN = false ∧ extended x ≤ extended y := by
  have unfolded : x ≤ y ↔
      (x.toModel.unpack.compare y.toModel.unpack).any (·.isLE) = true := by
    show decide (x.toModel.unpack.le y.toModel.unpack = true) = true ↔ _
    rw [decide_eq_true_iff, UnpackedFloat.le]
  rw [unfolded]
  by_cases numbers : x.isNaN = false ∧ y.isNaN = false
  · rw [compare_eq numbers.1 numbers.2, Option.any_some, Ordering.isLE_iff_ne_gt,
      cmp_eq_gt_iff, not_lt]
    exact ⟨fun below => ⟨numbers.1, numbers.2, below⟩, fun all => all.2.2⟩
  · rw [compare_of_isNaN (by grind)]
    exact ⟨fun never => (by cases never), fun all => absurd ⟨all.1, all.2.1⟩ numbers⟩

/-- Two numbers are always in one order or the other. -/
theorem not_lt_iff (hx : x.isNaN = false) (hy : y.isNaN = false) : ¬ x < y ↔ y ≤ x := by
  rw [lt_iff, le_iff]
  simp only [hx, hy, true_and, not_lt]

theorem not_lt_of_isNaN (h : x.isNaN = true ∨ y.isNaN = true) : ¬ x < y := by
  rw [lt_iff]
  grind

theorem not_le_of_isNaN (h : x.isNaN = true ∨ y.isNaN = true) : ¬ x ≤ y := by
  rw [le_iff]
  grind

protected theorem le_of_lt (h : x < y) : x ≤ y := by
  rw [lt_iff] at h
  exact le_iff.mpr ⟨h.1, h.2.1, h.2.2.le⟩

protected theorem lt_of_lt_of_le {z : Float} (first : x < y) (second : y ≤ z) : x < z := by
  rw [lt_iff] at first
  rw [le_iff] at second
  exact lt_iff.mpr ⟨first.1, second.2.1, first.2.2.trans_le second.2.2⟩

protected theorem lt_trans {z : Float} (first : x < y) (second : y < z) : x < z :=
  Double.lt_of_lt_of_le first (Double.le_of_lt second)

/-! ### Magnitudes -/

theorem IsInfinity.abs (h : IsInfinity x n) : IsInfinity x.abs false := by
  rw [abs_unpacked, h]
  cases n <;> rfl

theorem isNaN_abs (x : Float) : x.abs.isNaN = x.isNaN := by
  cases number : x.isNaN with
  | true =>
    rw [abs_unpacked, isNaN_unpacked, unpack_of_isNaN number]
    rfl
  | false =>
    rcases cases_of_number number with ⟨n, infinite⟩ | finite
    · rw [isNaN_unpacked, infinite.abs]
      rfl
    · rcases cases_of_isFinite finite with ⟨n, zero, -⟩ | ⟨n, m, e, denotes, -⟩
      · exact isNaN_of_isFinite zero.abs.isFinite
      · exact isNaN_of_isFinite denotes.abs.isFinite

theorem isFinite_abs (finite : x.isFinite = true) :
    x.abs.isFinite = true ∧ value x.abs = |value x| := by
  rcases cases_of_isFinite finite with ⟨n, zero, -⟩ | ⟨n, m, e, denotes, -⟩
  · exact ⟨zero.abs.isFinite, by rw [value_of_isZero zero.abs, value_of_isZero zero, abs_zero]⟩
  · refine ⟨denotes.abs.isFinite, ?_⟩
    rw [denotes.abs_value, ← denotes.abs.abs_value, abs_of_pos denotes.abs.value_pos]

/-- Only a finite double is smaller than a finite one. -/
theorem abs_lt_iff (finite : y.isFinite = true) :
    x.abs < y ↔ x.isFinite = true ∧ |value x| < value y := by
  constructor
  · intro less
    obtain ⟨number, -, below⟩ := lt_iff.mp less
    rw [isNaN_abs] at number
    rcases cases_of_number number with ⟨n, infinite⟩ | own
    · rw [extended_of_isInfinity infinite.abs] at below
      exact absurd below not_top_lt
    · obtain ⟨finite', size⟩ := isFinite_abs own
      exact ⟨own, size ▸ (lt_iff_of_isFinite finite' finite).mp less⟩
  · rintro ⟨own, less⟩
    obtain ⟨finite', size⟩ := isFinite_abs own
    rw [lt_iff_of_isFinite finite' finite, size]
    exact less

end

end Simplex.Double
