import Simplex.Proofs.Rounding

/-!
# The nearest double

`IsNearest` is rounding to nearest with ties to even, said of values alone: no finite double is
nearer, and none is as near if the significand is odd. Every rational that is not negative lies
around one pair of the grid (`exists_roundsTo`), no pair is nearer to it (`RoundsTo.nearest_pair`),
and packing that pair gives the nearest double (`isNearest_pack`).
-/

namespace Simplex.Double

open Float.Model (UnpackedFloat Format)
open Decimal (leastNormal leastExponent parts)

/-- The value of a double that is finite. -/
def value (x : Float) : ℚ :=
  match parts x with
  | .finite negative m e => (if negative then -1 else 1) * (m * 2 ^ e)
  | _ => 0

def significand (x : Float) : Nat :=
  match parts x with
  | .finite _ m _ => m
  | _ => 0

/-- The least rational that is too large for every finite double, half a gap above the greatest of
them. -/
def tooLarge : ℚ := (4 * leastNormal - 1 : Nat) * 2 ^ (970 : Int)

/-- The double, without a sign, is the nearest one to a rational that is not negative, and the one
with an even significand of two that are equally near. It is infinite if the rational is too
large. -/
structure IsNearest (v : ℚ) (x : Float) : Prop where
  finite_iff : x.isFinite = true ↔ v < tooLarge
  unsigned : parts x = .infinite false ∨ ∃ m e, parts x = .finite false m e
  nearest : x.isFinite = true → ∀ y : Float, y.isFinite = true → |value x - v| ≤ |value y - v|
  even : x.isFinite = true → ∀ y : Float, y.isFinite = true → value y ≠ value x →
    |value y - v| = |value x - v| → significand x % 2 = 0

/-! ### Neighbours on the grid -/

section
variable {v : ℚ} {m m' : Nat} {e e' : Int}

theorem OnGrid.normal_of_lt (grid : OnGrid m e) (above : leastExponent < e) : leastNormal ≤ m :=
  grid.normal.resolve_right above.ne'

theorem two_zpow_le (h : e ≤ e') : (2 : ℚ) ^ e ≤ 2 ^ e' := zpow_le_zpow_right₀ one_le_two h

/-- A pair with a smaller exponent lies at least one of its own units below. -/
theorem OnGrid.add_one_le_of_exponent_lt (grid : OnGrid m e) (grid' : OnGrid m' e') (h : e < e') :
    (m + 1 : ℚ) * 2 ^ e ≤ m' * 2 ^ e' := by
  have bound : (m + 1 : ℚ) ≤ 2 * leastNormal := by exact_mod_cast grid.lt
  have normal : (leastNormal : ℚ) ≤ m' := by
    exact_mod_cast grid'.normal_of_lt (lt_of_le_of_lt grid.least h)
  have double : (2 : ℚ) * 2 ^ e ≤ 2 ^ e' := by
    rw [mul_comm, ← zpow_add_one₀ two_ne_zero]
    exact two_zpow_le h
  calc (m + 1 : ℚ) * 2 ^ e
    _ ≤ 2 * leastNormal * 2 ^ e := mul_le_mul_of_nonneg_right bound (two_zpow_pos e).le
    _ = leastNormal * (2 * 2 ^ e) := by ring
    _ ≤ m' * 2 ^ e' := mul_le_mul normal double (by positivity) (by positivity)

theorem OnGrid.add_one_le (grid : OnGrid m e) (grid' : OnGrid m' e')
    (less : (m : ℚ) * 2 ^ e < m' * 2 ^ e') : (m + 1 : ℚ) * 2 ^ e ≤ m' * 2 ^ e' := by
  rcases lt_trichotomy e e' with lower | rfl | higher
  · exact grid.add_one_le_of_exponent_lt grid' lower
  · have below : m < m' := by exact_mod_cast lt_of_mul_lt_mul_right less (two_zpow_pos e).le
    exact mul_le_mul_of_nonneg_right (by exact_mod_cast below) (two_zpow_pos e).le
  · have above := grid'.add_one_le_of_exponent_lt grid higher
    have unit := two_zpow_pos e'
    linarith

/-- What lies below a pair lies below the gap under it. -/
theorem OnGrid.le_sub_gapBelow (grid : OnGrid m e) (grid' : OnGrid m' e')
    (less : (m' : ℚ) * 2 ^ e' < m * 2 ^ e) :
    (m' : ℚ) * 2 ^ e' ≤ (2 * m - gapBelow m e) * 2 ^ (e - 1) := by
  have half : (2 : ℚ) ^ (e - 1) = 2 ^ e / 2 := zpow_sub_one₀ two_ne_zero e
  have unit := two_zpow_pos e
  rcases lt_trichotomy e' e with lower | rfl | higher
  · have normal := grid.normal_of_lt (lt_of_le_of_lt grid'.least lower)
    have bound : (m' : ℚ) + 1 ≤ 2 * leastNormal := by exact_mod_cast grid'.lt
    have room : (m' : ℚ) ≤ 2 * m - gapBelow m e := by
      rcases gapBelow_cases m e with ⟨one, rfl, -⟩ | two
      · rw [one, Nat.cast_one]
        linarith
      · rcases normal.eq_or_lt with rfl | above
        · rw [gapBelow, if_pos ⟨rfl, (lt_of_le_of_lt grid'.least lower).ne'⟩] at two
          cases two
        · have above : (leastNormal : ℚ) + 1 ≤ m := by exact_mod_cast above
          rw [two, Nat.cast_two]
          linarith
    exact mul_le_mul room (two_zpow_le (by omega)) (two_zpow_pos e').le
      ((Nat.cast_nonneg m').trans room)
  · have below : m' + 1 ≤ m := by exact_mod_cast lt_of_mul_lt_mul_right less unit.le
    have below : (m' : ℚ) + 1 ≤ m := by exact_mod_cast below
    have gap := (cast_gapBelow m e').2
    rw [half]
    nlinarith
  · have above := grid.add_one_le_of_exponent_lt grid' higher
    linarith

/-- No other pair is as near as the one that a rational rounds to, unless its significand is even,
and then none is nearer. -/
theorem RoundsTo.nearest_pair (h : RoundsTo v m e) (grid : OnGrid m e) (grid' : OnGrid m' e')
    (other : (m' : ℚ) * 2 ^ e' ≠ m * 2 ^ e) :
    |(m : ℚ) * 2 ^ e - v| ≤ |m' * 2 ^ e' - v| ∧
      (m % 2 = 1 → |(m : ℚ) * 2 ^ e - v| < |m' * 2 ^ e' - v|) := by
  obtain ⟨low, high, inside⟩ := h
  have unit := two_zpow_pos e
  have half : (2 : ℚ) ^ (e - 1) = 2 ^ e / 2 := zpow_sub_one₀ two_ne_zero e
  have gap := cast_gapBelow m e
  rw [two_zpow_sub_two] at low high inside
  push_cast at high inside
  rcases lt_or_gt_of_ne other with less | greater
  · have apart := grid.le_sub_gapBelow grid' less
    have pos : 0 < m := by
      rcases Nat.eq_zero_or_pos m with rfl | pos
      · rw [Nat.cast_zero, zero_mul] at less
        exact absurd less (not_lt.mpr (by positivity))
      · exact pos
    rw [half] at apart
    rw [cast_sub_gapBelow pos] at low inside
    have far : |(m' : ℚ) * 2 ^ e' - v| = v - m' * 2 ^ e' := by
      rw [abs_sub_comm, abs_of_nonneg]
      nlinarith
    rw [far, abs_le, abs_lt]
    refine ⟨⟨?_, ?_⟩, fun odd => ⟨?_, ?_⟩⟩
    · linarith
    · nlinarith
    · linarith
    · have strictly := (inside odd).1
      nlinarith
  · have apart := grid.add_one_le grid' greater
    have far : |(m' : ℚ) * 2 ^ e' - v| = m' * 2 ^ e' - v := by
      rw [abs_of_nonneg]
      nlinarith
    rw [far, abs_le, abs_lt]
    refine ⟨⟨?_, ?_⟩, fun odd => ⟨?_, ?_⟩⟩
    · nlinarith
    · linarith
    · have strictly := (inside odd).2
      nlinarith
    · linarith

/-! ### The pair around a rational -/

theorem RoundsTo.nonneg (h : RoundsTo v m e) : 0 ≤ v :=
  (mul_nonneg (Nat.cast_nonneg _) (two_zpow_pos _).le).trans h.low

theorem exists_nearest {q : ℚ} (nonneg : 0 ≤ q) : ∃ r, Nearest q r := by
  obtain ⟨low, high⟩ : (⌊q⌋₊ : ℚ) ≤ q ∧ q < ⌊q⌋₊ + 1 :=
    ⟨Nat.floor_le nonneg, Nat.lt_floor_add_one q⟩
  generalize ⌊q⌋₊ = n at low high
  rcases lt_trichotomy q (n + 1 / 2) with below | half | above
  · exact ⟨n, by linarith, by linarith, fun _ => ⟨by linarith, below⟩⟩
  · rcases Nat.mod_two_eq_zero_or_one n with even | odd
    · exact ⟨n, by linarith, by linarith, fun odd => by omega⟩
    · refine ⟨n + 1, ?_, ?_, fun even => by omega⟩
      · push_cast
        linarith
      · push_cast
        linarith
  · refine ⟨n + 1, ?_, ?_, fun _ => ⟨?_, ?_⟩⟩ <;> push_cast <;> linarith

/-- The exponent of the binade of a rational, or the least one. -/
theorem exists_binade (v : ℚ) : ∃ e, leastExponent ≤ e ∧ v / 2 ^ e < 2 * leastNormal ∧
    (leastNormal ≤ v / 2 ^ e ∨ e = leastExponent) := by
  have scaled : ∀ e : Int, (2 : ℚ) ^ (e + 52) = leastNormal * 2 ^ e := fun e => by
    rw [two_zpow_add_52, mul_comm]
  by_cases small : v < leastNormal * 2 ^ leastExponent
  · refine ⟨leastExponent, le_refl _, ?_, Or.inr rfl⟩
    have below := (div_lt_iff₀ (two_zpow_pos leastExponent)).mpr small
    have pos : (0 : ℚ) < leastNormal := by norm_num [leastNormal]
    linarith
  · have large := not_lt.mp small
    have pos : 0 < v := lt_of_lt_of_le (by rw [← scaled]; exact two_zpow_pos _) large
    obtain ⟨e, log⟩ : ∃ e, Int.log 2 v = e + 52 := ⟨Int.log 2 v - 52, by omega⟩
    have low := Int.zpow_log_le_self one_lt_two pos
    have high := Int.lt_zpow_succ_log_self one_lt_two v
    rw [log] at low high
    push_cast at low high
    refine ⟨e, ?_, ?_, Or.inl ?_⟩
    · rw [← scaled] at large
      have reached := le_of_two_zpow_lt (large.trans_lt high)
      omega
    · rw [div_lt_iff₀ (two_zpow_pos e), mul_assoc, ← scaled, mul_comm,
        ← zpow_add_one₀ two_ne_zero]
      exact high
    · rw [le_div_iff₀ (two_zpow_pos e), ← scaled]
      exact low

theorem Nearest.roundsTo {q : ℚ} {r : Nat} (h : Nearest q r) (nonneg : 0 ≤ q)
    (normal : leastNormal ≤ q ∨ e = leastExponent) : RoundsTo (q * 2 ^ e) r e := by
  obtain ⟨low, high, inside⟩ := h
  have unit := two_zpow_pos e
  have below : ((4 * r - gapBelow r e : Nat) : ℚ) ≤ 4 * q := by
    rcases Nat.eq_zero_or_pos r with rfl | pos
    · simpa using nonneg
    · rw [cast_sub_gapBelow pos]
      rcases gapBelow_cases r e with ⟨-, rfl, some⟩ | two
      · have foot := normal.resolve_right some
        linarith [(cast_gapBelow leastNormal e).1]
      · rw [two]
        push_cast
        linarith
  refine ⟨?_, ?_, fun odd => ?_⟩
  · rw [two_zpow_sub_two]
    nlinarith
  · rw [two_zpow_sub_two]
    push_cast
    nlinarith
  · obtain ⟨above, under⟩ := inside odd
    -- The foot of a binade is even, so the gap below is a whole one.
    have two : gapBelow r e = 2 := by
      rcases gapBelow_cases r e with ⟨-, rfl, -⟩ | two
      · exact absurd odd (by decide)
      · exact two
    rw [cast_sub_gapBelow (by omega), two, two_zpow_sub_two]
    push_cast
    exact ⟨by nlinarith, by nlinarith⟩

/-- A rational that rounds up to the next binade rounds to its foot. -/
theorem Nearest.roundsTo_foot {q : ℚ} (h : Nearest q (2 * leastNormal))
    (less : q < 2 * leastNormal) (least : leastExponent ≤ e) :
    RoundsTo (q * 2 ^ e) leastNormal (e + 1) := by
  have low := h.low
  have unit := two_zpow_pos e
  have gap : gapBelow leastNormal (e + 1) = 1 := if_pos ⟨rfl, by omega⟩
  have quarter : (2 : ℚ) ^ (e + 1 - 2) = 2 ^ e / 2 := by
    rw [two_zpow_sub_two, zpow_add_one₀ two_ne_zero]
    ring
  push_cast at low
  refine ⟨?_, ?_, fun odd => absurd odd (by decide)⟩
  · rw [cast_sub_gapBelow (by decide), gap, quarter]
    push_cast
    nlinarith
  · rw [quarter]
    push_cast
    nlinarith

/-- A rational that is not negative rounds to some pair. -/
theorem exists_roundsTo (nonneg : 0 ≤ v) : ∃ m e, OnGrid m e ∧ RoundsTo v m e := by
  obtain ⟨e, least, less, normal⟩ := exists_binade v
  have unit := two_zpow_pos e
  obtain ⟨q, scaled⟩ : ∃ q, v = q * 2 ^ e := ⟨v / 2 ^ e, (div_mul_cancel₀ v unit.ne').symm⟩
  subst scaled
  rw [mul_div_cancel_right₀ _ unit.ne'] at less normal
  have nonneg := nonneg_of_mul_nonneg_left nonneg unit
  obtain ⟨r, nearest⟩ := exists_nearest nonneg
  have low := nearest.low
  have high := nearest.high
  have width : r < 2 * leastNormal + 1 := by
    have width : (r : ℚ) < 2 * leastNormal + 1 := by linarith
    exact_mod_cast width
  rcases Nat.lt_or_ge r (2 * leastNormal) with within | carried
  · refine ⟨r, e, ⟨within, least, normal.imp_left fun normal => ?_⟩,
      nearest.roundsTo nonneg normal⟩
    have above : (leastNormal : ℚ) < r + 1 := by linarith
    exact Nat.lt_add_one_iff.mp (by exact_mod_cast above)
  · obtain rfl : r = 2 * leastNormal := by omega
    exact ⟨leastNormal, e + 1, ⟨by decide, by omega, Or.inl (le_refl _)⟩,
      nearest.roundsTo_foot less least⟩

/-- What is less than half of the least double rounds to zero. -/
theorem RoundsTo.eq_zero_of_lt (h : RoundsTo v m e) (grid : OnGrid m e)
    (small : v < 2 ^ (leastExponent - 1)) : m = 0 := by
  by_contra some
  have bits : 2 ≤ 4 * m - gapBelow m e := by
    rcases gapBelow_cases m e with ⟨one, -⟩ | two <;> omega
  have power : (2 : ℚ) ^ (e - 1) = 2 * 2 ^ (e - 2) := by
    rw [← zpow_one_add₀ two_ne_zero]
    congr 1
    omega
  have reach : (2 : ℚ) ^ (leastExponent - 1) ≤ v := calc
    _ ≤ (2 : ℚ) ^ (e - 1) := two_zpow_le (by linarith [grid.least])
    _ = 2 * 2 ^ (e - 2) := power
    _ ≤ (4 * m - gapBelow m e : Nat) * 2 ^ (e - 2) :=
      mul_le_mul_of_nonneg_right (by exact_mod_cast bits) (two_zpow_pos _).le
    _ ≤ v := h.low
  exact absurd small (not_lt.mpr reach)

/-- The pairs with a greater exponent than a double has are those that too large rationals round
to. -/
theorem RoundsTo.lt_tooLarge_iff (h : RoundsTo v m e) (grid : OnGrid m e) :
    v < tooLarge ↔ e ≤ 971 := by
  constructor
  · intro small
    by_contra above
    have normal := grid.normal_of_lt (by rw [leastExponent]; omega)
    have bits : 4 * leastNormal - 1 ≤ 4 * m - gapBelow m e := by
      rcases gapBelow_cases m e with ⟨one, -, -⟩ | two
      · omega
      · rcases normal.eq_or_lt with rfl | more
        · rw [gapBelow, if_pos ⟨rfl, by rw [leastExponent]; omega⟩] at two
          cases two
        · omega
    have reach : tooLarge ≤ v := calc tooLarge
      _ ≤ (4 * m - gapBelow m e : Nat) * 2 ^ (e - 2) :=
        mul_le_mul (by exact_mod_cast bits) (two_zpow_le (by omega)) (two_zpow_pos _).le
          (Nat.cast_nonneg _)
      _ ≤ v := h.low
    exact absurd small (not_lt.mpr reach)
  · intro within
    have bound := grid.lt
    have greatest : (4 * leastNormal - 1 : Nat) * (2 : ℚ) ^ (970 : Int) =
        (8 * leastNormal - 2 : Nat) * 2 ^ ((971 : Int) - 2) := by
      rw [show (970 : Int) = 1 + (971 - 2) by decide, zpow_one_add₀ two_ne_zero, ← mul_assoc]
      congr 1
      norm_num [leastNormal]
    have power : (2 : ℚ) ^ (e - 2) ≤ 2 ^ ((971 : Int) - 2) := two_zpow_le (by omega)
    rw [tooLarge, greatest]
    by_cases last : m + 1 = 2 * leastNormal
    · have odd : m % 2 = 1 := by
        rw [leastNormal] at last
        omega
      have bits : 4 * m + 2 ≤ 8 * leastNormal - 2 := by omega
      calc v
        _ < (4 * m + 2 : Nat) * 2 ^ (e - 2) := (h.inside odd).2
        _ ≤ (8 * leastNormal - 2 : Nat) * 2 ^ ((971 : Int) - 2) :=
          mul_le_mul (by exact_mod_cast bits) power (two_zpow_pos _).le (Nat.cast_nonneg _)
    · have bits : 4 * m + 2 < 8 * leastNormal - 2 := by omega
      calc v
        _ ≤ (4 * m + 2 : Nat) * 2 ^ (e - 2) := h.high
        _ ≤ (4 * m + 2 : Nat) * 2 ^ ((971 : Int) - 2) :=
          mul_le_mul_of_nonneg_left power (Nat.cast_nonneg _)
        _ < (8 * leastNormal - 2 : Nat) * 2 ^ ((971 : Int) - 2) :=
          mul_lt_mul_of_pos_right (by exact_mod_cast bits) (two_zpow_pos _)

end

/-! ### Doubles -/

section
variable {v : ℚ} {m : Nat} {e : Int} {x : Float}

/-- The parts of a finite double are a pair of the grid. -/
theorem exists_parts (finite : x.isFinite = true) :
    ∃ n m e, parts x = .finite n m e ∧ OnGrid m e ∧ e ≤ 971 := by
  rcases cases_of_isFinite finite with ⟨n, -, apart⟩ | ⟨n, m, e, denotes, apart⟩
  · exact ⟨n, 0, leastExponent, apart, ⟨by decide, le_refl _, Or.inr rfl⟩, by decide⟩
  · exact ⟨n, m, e, apart, denotes.canonical.onGrid, denotes.canonical.greatest⟩

theorem RoundsTo.isNearest (h : RoundsTo v m e) (grid : OnGrid m e) (finite : x.isFinite = true)
    (apart : parts x = .finite false m e) : IsNearest v x := by
  have own : value x = m * 2 ^ e := by
    rw [value, apart]
    exact one_mul _
  have bits : significand x = m := by rw [significand, apart]
  have greatest : e ≤ 971 := by
    obtain ⟨n, m', e', apart', -, greatest⟩ := exists_parts finite
    obtain ⟨-, -, rfl⟩ := Decimal.Parts.finite.inj (apart.symm.trans apart')
    exact greatest
  have nonneg := h.nonneg
  -- A sign moves a double away from the rational, so it is enough to look at magnitudes.
  have magnitude : ∀ y : Float, y.isFinite = true → ∃ m' e', OnGrid m' e' ∧
      |value y| = m' * 2 ^ e' ∧ |(m' : ℚ) * 2 ^ e' - v| ≤ |value y - v| := by
    intro y finite'
    obtain ⟨n, m', e', apart', grid', -⟩ := exists_parts finite'
    have size : |value y| = m' * 2 ^ e' := by
      have pos : (0 : ℚ) ≤ m' * 2 ^ e' := by positivity
      rw [value, apart']
      cases n <;> simp [abs_of_nonneg pos]
    refine ⟨m', e', grid', size, ?_⟩
    have near := abs_abs_sub_abs_le_abs_sub (value y) v
    rwa [size, abs_of_nonneg nonneg] at near
  refine ⟨⟨fun _ => (h.lt_tooLarge_iff grid).mpr greatest, fun _ => finite⟩,
    Or.inr ⟨m, e, apart⟩, fun _ y finite' => ?_, fun _ y finite' different equal => ?_⟩
  · obtain ⟨m', e', grid', -, closer⟩ := magnitude y finite'
    rw [own]
    by_cases same : (m' : ℚ) * 2 ^ e' = m * 2 ^ e
    · rwa [same] at closer
    · exact (h.nearest_pair grid grid' same).1.trans closer
  · obtain ⟨m', e', grid', size, closer⟩ := magnitude y finite'
    rw [bits]
    rcases Nat.mod_two_eq_zero_or_one m with even | odd
    · exact even
    exfalso
    rw [own] at different equal
    by_cases same : (m' : ℚ) * 2 ^ e' = m * 2 ^ e
    · -- The other double is this one with a sign, and the rational is above zero.
      have mirrored : value y = -(m * 2 ^ e) := by
        rcases abs_choice (value y) with plus | minus
        · exact absurd (by rw [← plus, size, same]) different
        · rw [← same, ← size, minus, neg_neg]
      have some : (0 : ℚ) < m * 2 ^ e :=
        mul_pos (by exact_mod_cast (by omega : 0 < m)) (two_zpow_pos e)
      have above : 0 < v :=
        (mul_nonneg (Nat.cast_nonneg _) (two_zpow_pos _).le).trans_lt (h.inside odd).1
      have nearer : |(m : ℚ) * 2 ^ e - v| < m * 2 ^ e + v :=
        abs_lt.mpr ⟨by linarith, by linarith⟩
      have farther := neg_le_abs (value y - v)
      rw [mirrored] at farther equal
      linarith
    · have strictly := (h.nearest_pair grid grid' same).2 odd
      linarith

theorem IsZero.isNearest (zero : IsZero x false) : IsNearest 0 x := by
  have around : RoundsTo 0 0 leastExponent := ⟨by simp, by positivity, by simp⟩
  exact around.isNearest ⟨by decide, le_refl _, Or.inr rfl⟩ zero.isFinite (parts_of_isZero zero)

/-! ### Packing -/

theorem isFinite_pack_infinity :
    (Float.ofModel (.pack (.infinity .positive))).isFinite = false := rfl

theorem parts_pack_infinity :
    parts (Float.ofModel (.pack (.infinity .positive))) = .infinite false := rfl

theorem pack_ofPair_of_lt {s : UnpackedFloat.Sign} (pos : 0 < m) (above : 971 < e) :
    Float.Model.pack (ofPair s m e) = .pack (.infinity s) := by
  have field : 2 ^ Format.binary64.exponentBits ≤
      (e + Format.binary64.exponentBias + Format.binary64.mantissaBitsWithoutImplicit).toNat + 1 := by
    show 2048 ≤ (e + 1023 + 52).toNat + 1
    omega
  have packed : UnpackedFloat.pack Format.binary64 (.finite s m e pos) =
      UnpackedFloat.pack Format.binary64 (.infinity s) := if_pos field
  have known : ofPair s m e = .finite s m e pos := dif_neg pos.ne'
  rw [known]
  unfold Float.Model.pack
  simp only [packed]

/-- Packing the pair that a rational rounds to gives its nearest double. -/
theorem isNearest_pack (h : RoundsTo v m e) (grid : OnGrid m e) :
    IsNearest v (.ofModel (.pack (ofPair .positive m e))) := by
  rcases le_or_gt e 971 with within | above
  · rcases Nat.eq_zero_or_pos m with rfl | pos
    · have least : e = leastExponent := grid.normal.resolve_left (by decide)
      have zero := isZero_pack false
      exact h.isNearest grid zero.isFinite (least ▸ parts_of_isZero zero)
    · have canonical : Canonical m e := ⟨pos, grid.lt, grid.least, within, grid.normal⟩
      have denotes := denotes_pack canonical false
      rw [canonical.ofPair_eq]
      exact h.isNearest grid denotes.isFinite (parts_of_denotes denotes)
  · have pos : 0 < m :=
      lt_of_lt_of_le (by decide) (grid.normal_of_lt (lt_trans (by decide) above))
    have infinite : ¬ (Float.ofModel (.pack (.infinity .positive))).isFinite = true := by
      rw [isFinite_pack_infinity]
      decide
    rw [pack_ofPair_of_lt pos above]
    refine ⟨⟨fun finite => absurd finite infinite, fun small => ?_⟩,
      Or.inl parts_pack_infinity, fun finite => absurd finite infinite,
      fun finite => absurd finite infinite⟩
    exact absurd ((h.lt_tooLarge_iff grid).mp small) (not_le.mpr above)

end

end Simplex.Double
