import Simplex.Proofs.NearestDouble
import Simplex.Scalar

/-!
# Decimals as doubles

A decimal reads as the double that it rounds to (`denotes_ofDecimal`), both where it is a quotient
of two doubles that are exact and where it is rounded from integers of any size.
-/

namespace Simplex.Double

open Float.Model (UnpackedFloat Format)
open Decimal (leastNormal leastExponent Parts parts)

/-! ### Integers and powers of ten as doubles -/

theorem cast_mul_two_pow (n k : Nat) : ((n * 2 ^ k : Nat) : ℚ) * 2 ^ (-(k : Int)) = n := by
  rw [zpow_neg, zpow_natCast]
  push_cast
  exact mul_inv_cancel_right₀ (by positivity) _

/-- An integer shifted up to fifty-three bits. -/
theorem canonical_shifted {n k : Nat} (pos : 0 < n) (shift : n.log2 + k = 52) :
    Canonical (n * 2 ^ k) (-k) := by
  have low : leastNormal ≤ n * 2 ^ k := calc
    leastNormal = 2 ^ n.log2 * 2 ^ k := by rw [← pow_add, shift]; rfl
    _ ≤ n * 2 ^ k := Nat.mul_le_mul_right _ (Nat.log2_self_le pos.ne')
  have high : n * 2 ^ k < 2 * leastNormal := calc
    n * 2 ^ k < 2 ^ (n.log2 + 1) * 2 ^ k :=
      Nat.mul_lt_mul_of_pos_right Nat.lt_log2_self (by positivity)
    _ = 2 * leastNormal := by rw [← pow_add, show n.log2 + 1 + k = 53 by omega]; rfl
  exact ⟨by positivity, high, by rw [leastExponent]; omega, by omega, Or.inl low⟩

theorem ofNat_eq {n k : Nat} (pos : 0 < n) (shift : n.log2 + k = 52) :
    UnpackedFloat.ofNat Format.binary64 n =
      .finite .positive (n * 2 ^ k) (-k) (canonical_shifted pos shift).pos := by
  have canonical := canonical_shifted pos shift
  have order : compare (n : Int) 0 = .gt := by
    rw [Int.compare_eq_gt]
    omega
  have exact : ((n * 2 ^ k : Nat) : ℚ) * 2 ^ (-(k : Int)) = n * 2 ^ (0 : Int) := by
    rw [cast_mul_two_pow, zpow_zero, mul_one]
  simp only [UnpackedFloat.ofNat, UnpackedFloat.ofInt, UnpackedFloat.normalize, order,
    Int.toNat_natCast]
  rw [← canonical.ofPair_eq]
  exact round_eq (exact ▸ canonical.roundsTo) canonical.onGrid pos _

theorem denotes_toFloat {n : Nat} (pos : 0 < n) (small : n < 2 * leastNormal) :
    ∃ m e, Denotes n.toUInt64.toFloat false m e ∧ (m : ℚ) * 2 ^ e = n := by
  have wide : n.log2 < 53 := (Nat.log2_lt pos.ne').mpr small
  obtain ⟨k, shift⟩ : ∃ k, n.log2 + k = 52 := ⟨52 - n.log2, by omega⟩
  refine ⟨n * 2 ^ k, -k, ?_, cast_mul_two_pow n k⟩
  have unfolded : n.toUInt64.toFloat =
      .ofModel (.pack (.ofNat Format.binary64 n.toUInt64.toNat)) := rfl
  have exact : n.toUInt64.toNat = n := by
    have size : UInt64.size = 18446744073709551616 := rfl
    rw [leastNormal] at small
    exact UInt64.toNat_ofNat_of_lt' (by omega)
  rw [unfolded, exact, ofNat_eq pos shift]
  exact denotes_pack (canonical_shifted pos shift) false

theorem size_powersOfTen : Float.exactlyRepresentablePowersOfTen.size = 23 := rfl

/-- The table of powers of ten is right. -/
theorem parts_powersOfTen : ∀ k : Fin Float.exactlyRepresentablePowersOfTen.size,
    Float.exactlyRepresentablePowersOfTen[k].isFinite = true ∧
      parts Float.exactlyRepresentablePowersOfTen[k] =
        .finite false (5 ^ k.val * 2 ^ (52 - (5 ^ k.val).log2))
          (k.val + (5 ^ k.val).log2 - 52) := by
  decide +kernel

theorem denotes_powersOfTen {k : Nat} (h : k < Float.exactlyRepresentablePowersOfTen.size) :
    ∃ m e, Denotes Float.exactlyRepresentablePowersOfTen[k] false m e ∧
      (m : ℚ) * 2 ^ e = 10 ^ k := by
  obtain ⟨finite, apart⟩ := parts_powersOfTen ⟨k, h⟩
  have small : (5 ^ k).log2 ≤ 52 := by
    have within : k ≤ 22 := by
      rw [size_powersOfTen] at h
      omega
    have fits : 5 ^ k < 2 ^ 53 :=
      (Nat.pow_le_pow_right (by decide) within).trans_lt (by decide : 5 ^ 22 < 2 ^ 53)
    exact Nat.le_of_lt_succ ((Nat.log2_lt (by positivity)).mpr fits)
  rcases cases_of_isFinite finite with ⟨n, -, is⟩ | ⟨n, m, e, denotes, is⟩
  · obtain ⟨-, none, -⟩ := Parts.finite.inj (apart.symm.trans is)
    exact absurd none (by positivity)
  · obtain ⟨rfl, rfl, rfl⟩ := Parts.finite.inj (apart.symm.trans is)
    refine ⟨_, _, denotes, ?_⟩
    obtain ⟨j, log⟩ : ∃ j, (5 ^ k).log2 + j = 52 := ⟨52 - (5 ^ k).log2, by omega⟩
    have power : ((k : Int) + (5 ^ k).log2 - 52) = k - j := by omega
    have spare : 52 - (5 ^ k).log2 = j := by omega
    show ((5 ^ k * 2 ^ (52 - (5 ^ k).log2) : Nat) : ℚ) * 2 ^ ((k : Int) + (5 ^ k).log2 - 52) = _
    rw [power, spare, zpow_sub₀ two_ne_zero, zpow_natCast, zpow_natCast]
    push_cast
    rw [show (10 : ℚ) = 5 * 2 by norm_num, mul_pow]
    field_simp

/-! ### Decimals as doubles -/

section
variable {n m : Nat} {d e : Int}

/-- A decimal with many digits is rounded from integers. -/
theorem ofDecimal_slow (large : ¬ (n < 2 ^ 53 ∧ d.natAbs ≤ 22)) :
    Scalar.ofDecimal n d =
      Float.ofModel (.pack (.ofScientific Format.binary64 n d)) := by
  cases d with
  | ofNat k => exact dif_neg large
  | negSucc k => exact dif_neg large

/-- A decimal with few digits is a product or a quotient of two exact doubles. -/
theorem ofDecimal_fast_eq (pos : 0 < n) (small : n < 2 ^ 53 ∧ d.natAbs ≤ 22)
    (h : RoundsTo (n * 10 ^ d) m e) (grid : OnGrid m e) :
    Scalar.ofDecimal n d = Float.ofModel (.pack (ofPair .positive m e)) := by
  obtain ⟨m₁, e₁, denotes₁, value₁⟩ := denotes_toFloat pos small.1
  have within : d.natAbs < Float.exactlyRepresentablePowersOfTen.size := by
    rw [size_powersOfTen]
    omega
  obtain ⟨m₂, e₂, denotes₂, value₂⟩ := denotes_powersOfTen within
  cases d with
  | ofNat k =>
    have unfolded : (Scalar.ofDecimal n (.ofNat k) : Float) =
        n.toUInt64.toFloat * Float.exactlyRepresentablePowersOfTen[k] := dif_pos small
    rw [unfolded]
    refine denotes₁.mul_eq_pack denotes₂ ?_ grid
    rw [zpow_add₀ two_ne_zero, mul_mul_mul_comm, value₁, value₂, ← zpow_natCast]
    exact h
  | negSucc k =>
    have unfolded : (Scalar.ofDecimal n (.negSucc k) : Float) =
        n.toUInt64.toFloat / Float.exactlyRepresentablePowersOfTen[k + 1] := dif_pos small
    rw [unfolded]
    refine denotes₁.div_eq_pack denotes₂ ?_ grid
    rw [zpow_negSucc, ← div_eq_mul_inv] at h
    rw [value₁, value₂]
    exact h

theorem tooLarge_le_of_exponent (pos : 0 < n) (huge : 2048 < d) : tooLarge ≤ n * 10 ^ d := by
  obtain ⟨k, rfl⟩ := Int.eq_ofNat_of_zero_le (show 0 ≤ d by omega)
  have some : (1 : ℚ) ≤ n := by exact_mod_cast pos
  have power : (2 : ℚ) ^ k ≤ 10 ^ k := pow_le_pow_left₀ (by norm_num) (by norm_num) k
  have bits : ((4 * leastNormal - 1 : Nat) : ℚ) ≤ 2 ^ (54 : Int) := by norm_num [leastNormal]
  calc tooLarge
    _ ≤ 2 ^ (54 : Int) * 2 ^ (970 : Int) := mul_le_mul_of_nonneg_right bits (two_zpow_pos _).le
    _ = 2 ^ ((54 : Int) + 970) := (zpow_add₀ two_ne_zero _ _).symm
    _ ≤ 2 ^ (k : Int) := two_zpow_le (by omega)
    _ = 2 ^ k := zpow_natCast 2 k
    _ ≤ 1 * 10 ^ k := by rwa [one_mul]
    _ ≤ n * 10 ^ (k : Int) := by
      rw [zpow_natCast]
      exact mul_le_mul_of_nonneg_right some (by positivity)

theorem decimal_lt_of_places (tiny : d < -(2048 + n.log2)) :
    (n : ℚ) * 10 ^ d < 2 ^ (leastExponent - 1) := by
  obtain ⟨k, rfl⟩ : ∃ k : Nat, d = -k := ⟨(-d).toNat, by omega⟩
  have log : (n : ℚ) < 2 ^ ((n.log2 + 1 : Nat) : Int) := by
    rw [zpow_natCast]
    exact_mod_cast Nat.lt_log2_self
  have power : (10 : ℚ) ^ (-(k : Int)) ≤ 2 ^ (-(k : Int)) := by
    rw [zpow_neg, zpow_neg, zpow_natCast, zpow_natCast]
    exact inv_anti₀ (by positivity) (pow_le_pow_left₀ (by norm_num) (by norm_num) k)
  calc (n : ℚ) * 10 ^ (-(k : Int))
    _ ≤ n * 2 ^ (-(k : Int)) := mul_le_mul_of_nonneg_left power (Nat.cast_nonneg n)
    _ < 2 ^ ((n.log2 + 1 : Nat) : Int) * 2 ^ (-(k : Int)) :=
      mul_lt_mul_of_pos_right log (two_zpow_pos _)
    _ = 2 ^ (((n.log2 + 1 : Nat) : Int) + -(k : Int)) := (zpow_add₀ two_ne_zero _ _).symm
    _ ≤ 2 ^ (leastExponent - 1) := two_zpow_le (by
      rw [leastExponent]
      omega)

/-- Where the exponent is out of the range of doubles no power of ten is computed. -/
theorem pack_ofScientific (pos : 0 < n) (h : RoundsTo (n * 10 ^ d) m e) (grid : OnGrid m e) :
    Float.Model.pack (.ofScientific Format.binary64 n d) = .pack (ofPair .positive m e) := by
  have bits : (2 : Int) ^ Format.binary64.exponentBits = 2048 := rfl
  rw [UnpackedFloat.ofScientific, dif_neg pos.ne', bits]
  split
  · rename_i huge
    have above : 971 < e := not_le.mp fun within =>
      absurd ((h.lt_tooLarge_iff grid).mpr within) (not_lt.mpr (tooLarge_le_of_exponent pos huge))
    have normal := grid.normal_of_lt (lt_trans (by decide) above)
    exact (pack_ofPair_of_lt (lt_of_lt_of_le (by decide) normal) above).symm
  split
  · rename_i tiny
    have none := h.eq_zero_of_lt grid (decimal_lt_of_places tiny)
    rw [ofPair, dif_pos none]
  split
  · rename_i whole
    obtain ⟨k, rfl⟩ := Int.eq_ofNat_of_zero_le whole
    congr 1
    refine mul_eq ?_ grid _ _ (Or.inl ?_) _ _
    · have width : (Format.binary64.mantissaBits : Int) = (53 : Nat) := rfl
      have shift : Format.binary64.mantissaBits = 53 := rfl
      rw [width, shift, Nat.shiftLeft_eq, add_zero, mul_right_comm, cast_mul_two_pow]
      simpa using h
    · have shift : Format.binary64.mantissaBits = 53 := rfl
      have power : 0 < 10 ^ (k : Int).toNat := by positivity
      rw [shift, Nat.shiftLeft_eq, leastNormal]
      nlinarith
  · rename_i broken
    obtain ⟨k, rfl⟩ : ∃ k : Nat, d = -k := ⟨(-d).toNat, by omega⟩
    congr 1
    refine div_eq ?_ grid _ _ _ _
    rw [neg_neg, Int.toNat_natCast, zpow_zero, mul_one, mul_one]
    rw [zpow_neg, zpow_natCast, ← div_eq_mul_inv] at h
    push_cast
    exact h

/-- The decimal `n * 10 ^ d` reads as the double that it rounds to. -/
theorem ofDecimal_eq (pos : 0 < n) (h : RoundsTo (n * 10 ^ d) m e) (grid : OnGrid m e) :
    Scalar.ofDecimal n d = Float.ofModel (.pack (ofPair .positive m e)) := by
  by_cases small : n < 2 ^ 53 ∧ d.natAbs ≤ 22
  · exact ofDecimal_fast_eq pos small h grid
  · rw [ofDecimal_slow small, pack_ofScientific pos h grid]

theorem denotes_ofDecimal (pos : 0 < n) (h : RoundsTo (n * 10 ^ d) m e)
    (canonical : Canonical m e) : Denotes (Scalar.ofDecimal n d) false m e := by
  rw [ofDecimal_eq pos h canonical.onGrid, canonical.ofPair_eq]
  exact denotes_pack canonical false

theorem isZero_ofDecimal (d : Int) : IsZero (Scalar.ofDecimal 0 d) false := by
  have zero : IsZero (0 : Nat).toUInt64.toFloat false := rfl
  by_cases small : 0 < 2 ^ 53 ∧ d.natAbs ≤ 22
  · have within : d.natAbs < Float.exactlyRepresentablePowersOfTen.size := by
      rw [size_powersOfTen]
      omega
    obtain ⟨m, e, denotes, -⟩ := denotes_powersOfTen within
    cases d with
    | ofNat k =>
      have unfolded : (Scalar.ofDecimal 0 (.ofNat k) : Float) =
          (0 : Nat).toUInt64.toFloat * Float.exactlyRepresentablePowersOfTen[k] := dif_pos small
      rw [unfolded]
      exact zero.mul denotes
    | negSucc k =>
      have unfolded : (Scalar.ofDecimal 0 (.negSucc k) : Float) =
          (0 : Nat).toUInt64.toFloat / Float.exactlyRepresentablePowersOfTen[k + 1] :=
        dif_pos small
      rw [unfolded]
      exact zero.div denotes
  · rw [ofDecimal_slow small]
    exact isZero_pack false

/-- A decimal reads as the double nearest to it. -/
theorem isNearest_ofDecimal (n : Nat) (d : Int) :
    IsNearest (n * 10 ^ d) (Scalar.ofDecimal n d) := by
  obtain ⟨m, e, grid, h⟩ := exists_roundsTo (show (0 : ℚ) ≤ n * 10 ^ d by positivity)
  rcases Nat.eq_zero_or_pos n with rfl | pos
  · rw [Nat.cast_zero, zero_mul]
    exact (isZero_ofDecimal d).isNearest
  · rw [ofDecimal_eq pos h grid]
    exact isNearest_pack h grid

end

end Simplex.Double
