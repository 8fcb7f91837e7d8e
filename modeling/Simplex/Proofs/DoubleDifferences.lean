import Simplex.Proofs.DoubleOrder

/-!
# Differences of doubles

A difference of finite doubles is formed exactly and rounded once: its magnitude is the double
nearest to the distance of the values (`isNearest_abs_sub`).
-/

namespace Simplex.Double

open Float.Model (UnpackedFloat Format)
open Float.Model.UnpackedFloat (Sign)

section
variable {x y : Float} {n n' : Bool} {m m' : Nat} {e e' : Int}

/-! ### Magnitudes of what is rounded -/

theorem abs_pack_ofPair (grid : OnGrid m e) (n : Bool) :
    (Float.ofModel (.pack (ofPair (signOf n) m e))).abs =
      .ofModel (.pack (ofPair .positive m e)) := by
  rcases Nat.eq_zero_or_pos m with rfl | pos
  · have zero : IsZero (.ofModel (.pack (ofPair (signOf n) 0 e))) n := isZero_pack n
    rw [abs_unpacked, zero]
    rfl
  · rcases le_or_gt e 971 with within | above
    · have canonical : Canonical m e := ⟨pos, grid.lt, grid.least, within, grid.normal⟩
      rw [canonical.ofPair_eq, canonical.ofPair_eq, abs_unpacked,
        (denotes_pack canonical n).unpack_eq]
      rfl
    · rw [pack_ofPair_of_lt pos above, pack_ofPair_of_lt pos above]
      cases n <;> rfl

theorem isNearest_abs_round {M : Nat} (pos : 0 < M) (E : Int) (n : Bool) :
    IsNearest (M * 2 ^ E)
      (Float.ofModel (.pack (.round Format.binary64 (signOf n) M E))).abs := by
  obtain ⟨m, e, grid, h⟩ := exists_roundsTo (show (0 : ℚ) ≤ M * 2 ^ E by positivity)
  rw [round_eq h grid pos, abs_pack_ofPair grid]
  exact isNearest_pack h grid

theorem isNearest_abs_normalize (M E : Int) :
    IsNearest |(M : ℚ) * 2 ^ E|
      (Float.ofModel (.pack (.normalize Format.binary64 M E .positive))).abs := by
  rw [abs_mul, abs_of_pos (two_zpow_pos E)]
  rcases lt_trichotomy M 0 with below | rfl | above
  · obtain ⟨k, rfl⟩ := Int.eq_negSucc_of_lt_zero below
    have size : |((Int.negSucc k : Int) : ℚ)| = (k + 1 : Nat) := by
      rw [Int.cast_negSucc, abs_neg, Nat.abs_cast]
    have order : compare (Int.negSucc k) 0 = .lt := compare_lt_iff_lt.mpr below
    rw [size, UnpackedFloat.normalize, order]
    exact isNearest_abs_round k.succ_pos E true
  · have zero : IsZero (Float.ofModel (.pack (.zero .positive))) false := isZero_pack false
    rw [Int.cast_zero, abs_zero, zero_mul]
    exact zero.abs.isNearest
  · obtain ⟨k, rfl⟩ := Int.eq_ofNat_of_zero_le above.le
    have pos : 0 < k := Int.natCast_pos.mp above
    have order : compare (k : Int) 0 = .gt := compare_gt_iff_gt.mpr above
    rw [Int.cast_natCast, Nat.abs_cast, UnpackedFloat.normalize, order]
    exact isNearest_abs_round pos E false

/-! ### Differences -/

/-- A finite double in units of a power of two that is no larger than its own. -/
theorem value_aligned (h : Denotes x n m e) {E : Int} (le : E ≤ e) :
    (((signOf n).apply (m <<< (e - E).toNat : Nat) : Int) : ℚ) * 2 ^ E = value x := by
  have power : (2 : ℚ) ^ e = (2 ^ (e - E).toNat : Nat) * 2 ^ E := by
    rw [← two_zpow_add]
    congr 1
    omega
  rw [value_of_denotes h, power, Nat.shiftLeft_eq]
  cases n
  · simp only [signOf, Sign.apply, Bool.false_eq_true, if_false]
    push_cast
    ring
  · simp only [signOf, Sign.apply, if_true]
    push_cast
    ring

theorem isNearest_abs (finite : x.isFinite = true) : IsNearest |value x| x.abs := by
  rcases cases_of_isFinite finite with ⟨n, zero, -⟩ | ⟨n, m, e, denotes, -⟩
  · rw [value_of_isZero zero, abs_zero]
    exact zero.abs.isNearest
  · rw [denotes.abs_value]
    exact denotes.canonical.roundsTo.isNearest denotes.canonical.onGrid denotes.abs.isFinite
      (parts_of_denotes denotes.abs)

/-- The magnitude of a difference is the double nearest to the distance. -/
theorem isNearest_abs_sub (hx : x.isFinite = true) (hy : y.isFinite = true) :
    IsNearest |value x - value y| (x - y).abs := by
  rcases cases_of_isFinite hx with ⟨n, zero, -⟩ | ⟨n, m, e, denotes, -⟩ <;>
    rcases cases_of_isFinite hy with ⟨n', zero', -⟩ | ⟨n', m', e', denotes', -⟩
  · have none : IsZero (x - y) (n && !n') := by
      rw [sub_unpacked, zero, zero']
      cases n <;> cases n' <;> rfl
    rw [value_of_isZero zero, value_of_isZero zero', sub_zero, abs_zero]
    exact none.abs.isNearest
  · have mirrored : Denotes (x - y) (!n') m' e' := by
      rw [sub_unpacked, zero, denotes'.unpack_eq, UnpackedFloat.sub, neg_signOf]
      exact denotes_pack denotes'.canonical _
    have same : |value x - value y| = |value (x - y)| := by
      rw [value_of_isZero zero, zero_sub, abs_neg, denotes'.abs_value, mirrored.abs_value]
    rw [same]
    exact isNearest_abs mirrored.isFinite
  · have kept : Denotes (x - y) n m e := by
      rw [sub_unpacked, zero', denotes.unpack_eq]
      exact denotes_pack denotes.canonical _
    have same : |value x - value y| = |value (x - y)| := by
      rw [value_of_isZero zero', sub_zero, denotes.abs_value, kept.abs_value]
    rw [same]
    exact isNearest_abs kept.isFinite
  · have formed := isNearest_abs_normalize
      ((signOf n).apply (m <<< (e - min e e').toNat : Nat) -
        (signOf n').apply (m' <<< (e' - min e e').toNat : Nat)) (min e e')
    rw [Int.cast_sub, sub_mul, value_aligned denotes (min_le_left e e'),
      value_aligned denotes' (min_le_right e e')] at formed
    rw [sub_unpacked, denotes.unpack_eq, denotes'.unpack_eq]
    exact formed

theorem isNaN_sub (nan : x.isNaN = true) (y : Float) : (x - y).isNaN = true := by
  have absorbed : ∀ f, UnpackedFloat.sub Format.binary64 .notANumber f = .notANumber := fun f => by
    cases f <;> rfl
  rw [sub_unpacked, isNaN_unpacked, unpack_of_isNaN nan, absorbed]
  rfl

end

end Simplex.Double
