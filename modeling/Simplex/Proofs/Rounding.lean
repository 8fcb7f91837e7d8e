import Simplex.Proofs.Doubles

/-!
# Rounding to the nearest double

The rationals that round to one double fill an interval around it (`RoundsTo`). A truncated
mantissa says where a rational lies (`Truncates`) and keeps saying it when it is shifted, so one
rounding of a rational from the interval gives that double (`roundWithAccuracy_eq`); products and
quotients of doubles are such roundings.
-/

namespace Simplex.Double

open Float.Model (UnpackedFloat Format totalExponent)
open Float.Model.UnpackedFloat (Sign Accuracy ExtendedMantissa accuracyOfFraction)
open Decimal (leastNormal leastExponent)

/-! ### Truncated mantissas -/

/-- What the truncation `m` of a rational and its accuracy say of the rational. -/
def Truncates (m : Nat) (accuracy : Accuracy) (q : ℚ) : Prop :=
  match accuracy with
  | .exact => q = m
  | .inexact .lt => m < q ∧ q < m + 1 / 2
  | .inexact .eq => q = m + 1 / 2
  | .inexact .gt => m + 1 / 2 < q ∧ q < m + 1

/-- The integer nearest to a rational, the even one of two. -/
structure Nearest (q : ℚ) (r : Nat) : Prop where
  low : r - 1 / 2 ≤ q
  high : q ≤ r + 1 / 2
  inside : r % 2 = 1 → r - 1 / 2 < q ∧ q < r + 1 / 2

theorem Truncates.between {m : Nat} {accuracy : Accuracy} {q : ℚ} (h : Truncates m accuracy q) :
    m ≤ q ∧ q < m + 1 := by
  rcases accuracy with - | (- | - | -) <;> simp only [Truncates] at h
  · exact ⟨h.ge, by linarith⟩
  · exact ⟨h.1.le, by linarith [h.2]⟩
  · exact ⟨by linarith, by linarith⟩
  · exact ⟨by linarith [h.1], h.2⟩

theorem Truncates.roundToNearestEven_eq {m r : Nat} {accuracy : Accuracy} {q : ℚ}
    (h : Truncates m accuracy q) (nearest : Nearest q r) :
    accuracy.roundToNearestEven m = r := by
  obtain ⟨low, high, inside⟩ := nearest
  rcases accuracy with - | (- | - | -) <;>
    simp only [Truncates, Accuracy.roundToNearestEven] at h ⊢
  · have le : (m : ℚ) < r + 1 := by linarith
    have ge : (r : ℚ) < m + 1 := by linarith
    norm_cast at le ge
    omega
  · have le : (m : ℚ) < r + 1 := by linarith [h.1]
    have ge : (r : ℚ) < m + 1 := by linarith [h.2]
    norm_cast at le ge
    omega
  · have le : (m : ℚ) ≤ r := by linarith
    have ge : (r : ℚ) ≤ m + 1 := by linarith
    norm_cast at le ge
    rcases Nat.mod_two_eq_zero_or_one r with even | odd
    · omega
    · have strictly := inside odd
      have lt : (m : ℚ) < r := by linarith [strictly.2]
      have gt : (r : ℚ) < m + 1 := by linarith [strictly.1]
      norm_cast at lt gt
      omega
  · have le : (m : ℚ) < r := by linarith [h.1]
    have ge : (r : ℚ) < m + 2 := by linarith [h.2]
    norm_cast at le ge
    omega

theorem truncates_div (a : Nat) {b : Nat} (pos : 0 < b) :
    Truncates (a / b) (accuracyOfFraction (a % b) b) (a / b) := by
  have posQ : (0 : ℚ) < b := by exact_mod_cast pos
  have whole : (a : ℚ) / b = (a / b : Nat) + (a % b : Nat) / b := by
    rw [div_eq_iff posQ.ne', add_mul, div_mul_cancel₀ _ posQ.ne', mul_comm]
    exact_mod_cast (Nat.div_add_mod a b).symm
  have less : ((a % b : Nat) : ℚ) / b < 1 := by
    rw [div_lt_one₀ posQ]
    exact_mod_cast Nat.mod_lt a pos
  rw [accuracyOfFraction, whole]
  split
  · rename_i none
    rw [none]
    simp [Truncates]
  · rename_i some
    have rest : 0 < ((a % b : Nat) : ℚ) / b :=
      div_pos (by exact_mod_cast Nat.pos_of_ne_zero some) posQ
    rcases order : compare (2 * (a % b)) b
    · have below : (2 * (a % b : Nat) : ℚ) < b := by exact_mod_cast Nat.compare_eq_lt.mp order
      have half : ((a % b : Nat) : ℚ) / b < 1 / 2 := by
        rw [div_lt_iff₀ posQ]
        linarith
      exact ⟨by linarith, by linarith⟩
    · have equal : (2 * (a % b : Nat) : ℚ) = b := by exact_mod_cast Nat.compare_eq_eq.mp order
      have half : ((a % b : Nat) : ℚ) / b = 1 / 2 := by
        rw [div_eq_iff posQ.ne']
        linarith
      show _ = _
      rw [half]
    · have above : (b : ℚ) < 2 * (a % b : Nat) := by exact_mod_cast Nat.compare_eq_gt.mp order
      have half : 1 / 2 < ((a % b : Nat) : ℚ) / b := by
        rw [lt_div_iff₀ posQ]
        linarith
      exact ⟨by linarith, by linarith⟩

/-! ### Shifts -/

theorem accuracy_ofMantissaAndAccuracy (m : Nat) (accuracy : Accuracy) :
    (ExtendedMantissa.ofMantissaAndAccuracy m accuracy).accuracy = accuracy ∧
      (ExtendedMantissa.ofMantissaAndAccuracy m accuracy).mantissa = m := by
  rcases accuracy with - | (- | - | -) <;> exact ⟨rfl, rfl⟩

theorem truncates_shiftRightOne {em : ExtendedMantissa} {q : ℚ}
    (h : Truncates em.mantissa em.accuracy q) :
    Truncates em.shiftRightOne.mantissa em.shiftRightOne.accuracy (q / 2) := by
  obtain ⟨m, round, sticky⟩ := em
  have split : (m : ℚ) = 2 * (m / 2 : Nat) + (m % 2 : Nat) := by
    exact_mod_cast (Nat.div_add_mod m 2).symm
  rcases Nat.mod_two_eq_zero_or_one m with even | odd
  · rw [even, Nat.cast_zero, add_zero] at split
    cases round <;> cases sticky <;>
      simp only [Truncates, ExtendedMantissa.accuracy, ExtendedMantissa.shiftRightOne, even,
        split] at h ⊢ <;> grind
  · rw [odd, Nat.cast_one] at split
    cases round <;> cases sticky <;>
      simp only [Truncates, ExtendedMantissa.accuracy, ExtendedMantissa.shiftRightOne, odd,
        split] at h ⊢ <;> grind

/-- The round bit and the sticky bit keep what is shifted out, as far as rounding needs it. -/
theorem Truncates.shiftRight {m : Nat} {accuracy : Accuracy} {q : ℚ} (h : Truncates m accuracy q)
    (n : Nat) :
    Truncates (ExtendedMantissa.ofMantissaAndAccuracy m accuracy >>> n).mantissa
      (ExtendedMantissa.ofMantissaAndAccuracy m accuracy >>> n).accuracy (q / 2 ^ n) := by
  obtain ⟨start, start'⟩ := accuracy_ofMantissaAndAccuracy m accuracy
  generalize ExtendedMantissa.ofMantissaAndAccuracy m accuracy = em at start start' ⊢
  show Truncates (n.repeat ExtendedMantissa.shiftRightOne em).mantissa
    (n.repeat ExtendedMantissa.shiftRightOne em).accuracy _
  induction n with
  | zero =>
    rw [pow_zero, div_one, Nat.repeat, start, start']
    exact h
  | succ n ih =>
    rw [Nat.repeat, pow_succ, ← div_div]
    exact truncates_shiftRightOne ih

/-! ### The rationals that round to a double -/

/-- The significand and the exponent of a double, zero among them, with no bound on the exponent
from above. -/
structure OnGrid (m : Nat) (e : Int) : Prop where
  lt : m < 2 * leastNormal
  least : leastExponent ≤ e
  normal : leastNormal ≤ m ∨ e = leastExponent

/-- The unpacked float of a pair on the grid. -/
def ofPair (s : Sign) (m : Nat) (e : Int) : UnpackedFloat :=
  if h : m = 0 then .zero s else .finite s m e (Nat.pos_of_ne_zero h)

/-- The gap between `m * 2 ^ e` and the double below, in halves of `2 ^ e`. It is half as wide at
the foot of a binade. -/
def gapBelow (m : Nat) (e : Int) : Nat := if m = leastNormal ∧ e ≠ leastExponent then 1 else 2

/-- The rational lies no further from `m * 2 ^ e` than half the gap to the neighbour on its side,
and less far if `m` is odd. -/
structure RoundsTo (v : ℚ) (m : Nat) (e : Int) : Prop where
  low : (4 * m - gapBelow m e : Nat) * 2 ^ (e - 2) ≤ v
  high : v ≤ (4 * m + 2 : Nat) * 2 ^ (e - 2)
  inside : m % 2 = 1 →
    (4 * m - gapBelow m e : Nat) * 2 ^ (e - 2) < v ∧ v < (4 * m + 2 : Nat) * 2 ^ (e - 2)

theorem gapBelow_cases (m : Nat) (e : Int) :
    gapBelow m e = 1 ∧ m = leastNormal ∧ e ≠ leastExponent ∨ gapBelow m e = 2 := by
  unfold gapBelow
  split
  · exact Or.inl ⟨rfl, by assumption⟩
  · exact Or.inr rfl

theorem cast_gapBelow (m : Nat) (e : Int) : (1 : ℚ) ≤ gapBelow m e ∧ (gapBelow m e : ℚ) ≤ 2 := by
  rcases gapBelow_cases m e with ⟨one, -⟩ | two <;> simp [*]

theorem cast_sub_gapBelow {m : Nat} (pos : 0 < m) (e : Int) :
    ((4 * m - gapBelow m e : Nat) : ℚ) = 4 * m - gapBelow m e := by
  have small : gapBelow m e ≤ 4 * m := by
    rcases gapBelow_cases m e with ⟨one, -⟩ | two <;> omega
  push_cast [small]
  rfl

theorem two_zpow_pos (e : Int) : (0 : ℚ) < 2 ^ e := zpow_pos two_pos e

theorem two_zpow_sub_two (e : Int) : (2 : ℚ) ^ (e - 2) = 2 ^ e / 4 := by
  rw [zpow_sub₀ two_ne_zero]
  norm_num

theorem two_zpow_add_52 (e : Int) : (2 : ℚ) ^ (e + 52) = 2 ^ e * leastNormal := by
  rw [zpow_add₀ two_ne_zero]
  norm_num [leastNormal]

theorem le_of_two_zpow_lt {a b : Int} (h : (2 : ℚ) ^ a < 2 ^ (b + 1)) : a ≤ b :=
  Int.lt_add_one_iff.mp ((zpow_lt_zpow_iff_right₀ one_lt_two).mp h)

section
variable {v : ℚ} {m : Nat} {e : Int}

theorem Canonical.onGrid (canonical : Canonical m e) : OnGrid m e :=
  ⟨canonical.lt, canonical.least, canonical.normal⟩

theorem Canonical.ofPair_eq (canonical : Canonical m e) (s : Sign) :
    ofPair s m e = .finite s m e canonical.pos := dif_neg canonical.pos.ne'

theorem Canonical.roundsTo (canonical : Canonical m e) : RoundsTo (m * 2 ^ e) m e := by
  have pos := two_zpow_pos e
  have gap := (cast_gapBelow m e).1
  have below : ((4 * m - gapBelow m e : Nat) : ℚ) * 2 ^ (e - 2) < m * 2 ^ e := by
    rw [cast_sub_gapBelow canonical.pos, two_zpow_sub_two]
    nlinarith
  have above : (m : ℚ) * 2 ^ e < (4 * m + 2 : Nat) * 2 ^ (e - 2) := by
    rw [two_zpow_sub_two]
    push_cast
    nlinarith
  exact ⟨below.le, above.le, fun _ => ⟨below, above⟩⟩

theorem le_cast_sub_gapBelow (m : Nat) (e : Int) :
    (4 * m - 2 : ℚ) ≤ (4 * m - gapBelow m e : Nat) := by
  rcases Nat.eq_zero_or_pos m with rfl | pos
  · norm_num
  · rw [cast_sub_gapBelow pos]
    linarith [(cast_gapBelow m e).2]

theorem RoundsTo.nearest (h : RoundsTo v m e) : Nearest (v / 2 ^ e) m := by
  have pos := two_zpow_pos e
  have gap := le_cast_sub_gapBelow m e
  obtain ⟨low, high, inside⟩ := h
  rw [two_zpow_sub_two] at low high inside
  push_cast at high inside
  refine ⟨?_, ?_, fun odd => ?_⟩
  · rw [le_div_iff₀ pos]
    nlinarith
  · rw [div_le_iff₀ pos]
    linarith
  · rw [lt_div_iff₀ pos, div_lt_iff₀ pos]
    obtain ⟨low, high⟩ := inside odd
    exact ⟨by nlinarith, by linarith⟩

/-- Below the foot of a binade, a rational that rounds to it rounds up in the finer binade. -/
theorem RoundsTo.nearest_below (h : RoundsTo v leastNormal e) (some : e ≠ leastExponent)
    (below : v < leastNormal * 2 ^ e) : Nearest (v / 2 ^ (e - 1)) (2 * leastNormal) := by
  have pos := two_zpow_pos e
  have low := h.low
  have gap : gapBelow leastNormal e = 1 := if_pos ⟨rfl, some⟩
  have half : (2 : ℚ) ^ (e - 1) = 2 ^ e / 2 := zpow_sub_one₀ two_ne_zero e
  rw [cast_sub_gapBelow (by decide), two_zpow_sub_two, gap] at low
  push_cast at low
  refine ⟨?_, ?_, fun odd => absurd odd (by decide)⟩
  · rw [half, le_div_iff₀ (by linarith)]
    push_cast
    nlinarith
  · rw [half, div_le_iff₀ (by linarith)]
    push_cast
    nlinarith

theorem RoundsTo.lt (h : RoundsTo v m e) (grid : OnGrid m e) : v < 2 ^ (e + 52 + 1) := by
  have pos := two_zpow_pos e
  have bound : (m : ℚ) + 1 ≤ 2 * leastNormal := by exact_mod_cast grid.lt
  have high := h.high
  rw [two_zpow_sub_two] at high
  push_cast at high
  rw [zpow_add_one₀ two_ne_zero, two_zpow_add_52]
  nlinarith

theorem RoundsTo.gt (h : RoundsTo v m e) (normal : leastNormal ≤ m) :
    2 ^ (e - 1 + 52) < v ∧ (m ≠ leastNormal → 2 ^ (e + 52) < v) := by
  have pos := two_zpow_pos e
  have low := h.low
  rw [two_zpow_sub_two] at low
  have gap := le_cast_sub_gapBelow m e
  have large : (2 : ℚ) < leastNormal := by norm_num [leastNormal]
  constructor
  · have bound : (leastNormal : ℚ) ≤ m := by exact_mod_cast normal
    rw [two_zpow_add_52, zpow_sub_one₀ two_ne_zero]
    nlinarith
  · intro other
    have bound : (leastNormal : ℚ) + 1 ≤ m := by exact_mod_cast lt_of_le_of_ne normal other.symm
    rw [two_zpow_add_52]
    nlinarith

/-! ### Rounding a truncated mantissa -/

theorem targetExponent_eq (t : Int) :
    Format.binary64.targetExponent t = max (t - 53) leastExponent := rfl

theorem OnGrid.targetExponent (grid : OnGrid m e) :
    Format.binary64.targetExponent (totalExponent m e) = e := by
  have least := grid.least
  rw [targetExponent_eq, totalExponent]
  rcases grid.normal with normal | rfl
  · have pos : 0 < m := lt_of_lt_of_le (by decide) normal
    have bits := (log2_add_one_eq pos grid.lt).mpr normal
    have width : Format.binary64.mantissaBits = 53 := rfl
    omega
  · have less : m.log2 < 53 := by
      rcases Nat.eq_zero_or_pos m with rfl | pos
      · decide
      · exact (Nat.log2_lt pos.ne').mpr grid.lt
    omega

theorem two_zpow_add (k : Nat) (E : Int) : (2 : ℚ) ^ ((k : Int) + E) = (2 ^ k : Nat) * 2 ^ E := by
  rw [zpow_add₀ two_ne_zero, zpow_natCast]
  push_cast
  rfl

theorem lt_two_zpow_log2 {M : Nat} {E : Int} (high : v < (M + 1) * 2 ^ E) :
    v < 2 ^ ((M.log2 : Int) + E + 1) := by
  have log : ((M + 1 : Nat) : ℚ) ≤ (2 ^ (M.log2 + 1) : Nat) := by exact_mod_cast Nat.lt_log2_self
  have power := two_zpow_add (M.log2 + 1) E
  rw [show (M.log2 : Int) + E + 1 = (M.log2 + 1 : Nat) + E by omega, power]
  push_cast at log ⊢
  nlinarith [two_zpow_pos E]

theorem two_zpow_log2_le {M : Nat} {E : Int} (some : 0 < M) (low : M * 2 ^ E ≤ v) :
    2 ^ ((M.log2 : Int) + E) ≤ v := by
  have log : ((2 ^ M.log2 : Nat) : ℚ) ≤ M := by exact_mod_cast Nat.log2_self_le some.ne'
  rw [two_zpow_add]
  nlinarith [two_zpow_pos E]

/-- The exponent at which a rational is rounded is the one of the double, or the one below it if the
rounding carries into the binade of the double. -/
theorem RoundsTo.targetExponent_cases (h : RoundsTo v m e) (grid : OnGrid m e) {M : Nat}
    {E : Int} (low : M * 2 ^ E ≤ v) (high : v < (M + 1) * 2 ^ E)
    (enough : leastNormal ≤ M ∨ E ≤ leastExponent) :
    E ≤ Format.binary64.targetExponent (totalExponent M E) ∧
      (Format.binary64.targetExponent (totalExponent M E) = e ∨
        Format.binary64.targetExponent (totalExponent M E) = e - 1 ∧
          m = leastNormal ∧ e ≠ leastExponent ∧ v < leastNormal * 2 ^ e) := by
  have least := grid.least
  rw [targetExponent_eq, totalExponent]
  have within := lt_two_zpow_log2 high
  have above : (M.log2 : Int) + E ≤ e + 52 := by
    rcases Nat.eq_zero_or_pos M with rfl | some
    · have zero : (0 : Nat).log2 = 0 := rfl
      have tiny : E ≤ leastExponent := enough.resolve_left (by decide)
      omega
    · exact le_of_two_zpow_lt (lt_of_le_of_lt (two_zpow_log2_le some low) (h.lt grid))
  have wide : leastNormal ≤ M → 52 ≤ M.log2 := fun normal =>
    (Nat.le_log2 (by rw [leastNormal] at normal; omega)).mpr normal
  rw [leastExponent] at *
  refine ⟨by omega, ?_⟩
  by_cases lowest : e = -1074
  · exact Or.inl (by omega)
  · have normal := grid.normal.resolve_right lowest
    obtain ⟨below, inner⟩ := h.gt normal
    have reach : e - 1 + 52 ≤ (M.log2 : Int) + E := le_of_two_zpow_lt (below.trans within)
    by_cases foot : (M.log2 : Int) + E + 1 = e + 52
    · have is_foot : m = leastNormal := by
        by_contra other
        have reach : e + 52 ≤ (M.log2 : Int) + E := le_of_two_zpow_lt ((inner other).trans within)
        omega
      refine Or.inr ⟨by omega, is_foot, lowest, lt_of_lt_of_eq within ?_⟩
      rw [foot, two_zpow_add_52, mul_comm]
    · exact Or.inl (by omega)

theorem roundWithAccuracy_of_targets {M r : Nat} {E T : Int} {accuracy : Accuracy} (s : Sign)
    (target : Format.binary64.targetExponent (totalExponent M E) = T) (le : E ≤ T)
    (rounded : (ExtendedMantissa.ofMantissaAndAccuracy M accuracy >>> (T - E).toNat).roundedMantissa
      = r)
    (target' : Format.binary64.targetExponent (totalExponent r T) = e) (le' : T ≤ e)
    (shifted : (ExtendedMantissa.ofMantissaAndAccuracy r .exact >>> (e - T).toNat).mantissa = m) :
    UnpackedFloat.roundWithAccuracy Format.binary64 s M E accuracy = ofPair s m e := by
  have reached : E + ((T - E).toNat : Int) = T := by omega
  have reached' : T + ((e - T).toNat : Int) = e := by omega
  simp only [UnpackedFloat.roundWithAccuracy, UnpackedFloat.shiftToTargetExponent,
    UnpackedFloat.shiftToExponent, target, rounded, reached, target', shifted, reached']
  rfl

/-- A rational that a mantissa truncates, with bits enough, rounds to the double around which it
lies. -/
theorem roundWithAccuracy_eq (h : RoundsTo v m e) (grid : OnGrid m e) {M : Nat} {E : Int}
    {accuracy : Accuracy} (truncates : Truncates M accuracy (v / 2 ^ E))
    (enough : leastNormal ≤ M ∨ E ≤ leastExponent) (s : Sign) :
    UnpackedFloat.roundWithAccuracy Format.binary64 s M E accuracy = ofPair s m e := by
  obtain ⟨low, high⟩ := truncates.between
  rw [le_div_iff₀ (two_zpow_pos E)] at low
  rw [div_lt_iff₀ (two_zpow_pos E)] at high
  obtain ⟨le, target⟩ := h.targetExponent_cases grid low high enough
  obtain ⟨T, named⟩ : ∃ T, Format.binary64.targetExponent (totalExponent M E) = T := ⟨_, rfl⟩
  rw [named] at le target
  have shifted := truncates.shiftRight (T - E).toNat
  have scaled : v / 2 ^ E / 2 ^ (T - E).toNat = v / 2 ^ T := by
    rw [div_div, ← zpow_natCast, ← zpow_add₀ two_ne_zero]
    congr 2
    omega
  rw [scaled] at shifted
  -- Either the mantissa rounds to `m` at once, or it carries and is shifted once more.
  rcases target with rfl | ⟨rfl, rfl, some, below⟩
  · refine roundWithAccuracy_of_targets s named le
      (shifted.roundToNearestEven_eq h.nearest) grid.targetExponent (le_refl _) ?_
    rw [sub_self]
    rfl
  · refine roundWithAccuracy_of_targets s named le
      (shifted.roundToNearestEven_eq (h.nearest_below some below)) ?_ (by omega) ?_
    · have least := grid.least
      have bits : (2 * leastNormal).log2 = 53 := by decide +kernel
      rw [targetExponent_eq, totalExponent, bits]
      omega
    · have one : (e - (e - 1)).toNat = 1 := by omega
      rw [one]
      rfl

/-- An integer in units of a power of two is rounded with as many bits as that needs. -/
theorem round_eq {M : Nat} {E : Int} (h : RoundsTo (M * 2 ^ E) m e) (grid : OnGrid m e)
    (pos : 0 < M) (s : Sign) : UnpackedFloat.round Format.binary64 s M E = ofPair s m e := by
  obtain ⟨T, target⟩ : ∃ T, Format.binary64.targetExponent (totalExponent M E) = T := ⟨_, rfl⟩
  obtain ⟨k, shift⟩ : ∃ k, (E - T).toNat = k := ⟨_, rfl⟩
  simp only [UnpackedFloat.round, UnpackedFloat.decreaseExponent, target, shift, Nat.shiftLeft_eq]
  rw [targetExponent_eq, totalExponent] at target
  refine roundWithAccuracy_eq h grid ?_ ?_ s
  · have unit : (2 : ℚ) ^ E = 2 ^ k * 2 ^ (E - k) := by
      rw [← zpow_natCast, ← zpow_add₀ two_ne_zero]
      congr 1
      omega
    show _ = ((M * 2 ^ k : Nat) : ℚ)
    rw [unit, ← mul_assoc, mul_div_cancel_right₀ _ (two_zpow_pos _).ne']
    push_cast
    rfl
  · by_cases low : E - k ≤ leastExponent
    · exact Or.inr low
    · refine Or.inl (calc leastNormal
        _ = 2 ^ 52 := rfl
        _ ≤ 2 ^ (M.log2 + k) := Nat.pow_le_pow_right two_pos (by omega)
        _ = 2 ^ M.log2 * 2 ^ k := pow_add 2 _ _
        _ ≤ M * 2 ^ k := Nat.mul_le_mul_right _ (Nat.log2_self_le pos.ne'))

/-! ### Products and quotients -/

theorem mul_eq {m₁ m₂ : Nat} {e₁ e₂ : Int} (h : RoundsTo (m₁ * m₂ * 2 ^ (e₁ + e₂)) m e)
    (grid : OnGrid m e) (pos₁ : 0 < m₁) (pos₂ : 0 < m₂)
    (enough : leastNormal ≤ m₁ * m₂ ∨ e₁ + e₂ ≤ leastExponent) (s₁ s₂ : Sign) :
    UnpackedFloat.mul Format.binary64 (.finite s₁ m₁ e₁ pos₁) (.finite s₂ m₂ e₂ pos₂) =
      ofPair (s₁ * s₂) m e := by
  refine roundWithAccuracy_eq h grid ?_ enough _
  rw [mul_div_cancel_right₀ _ (two_zpow_pos _).ne']
  exact_mod_cast rfl

/-- A quotient is truncated with as many bits as its rounding needs. -/
theorem divCore_spec {m₁ m₂ : Nat} (e₁ e₂ : Int) (pos₁ : 0 < m₁) (pos₂ : 0 < m₂) :
    ∃ M E accuracy, UnpackedFloat.divCore Format.binary64 m₁ e₁ m₂ e₂ = (M, E, accuracy) ∧
      Truncates M accuracy (m₁ * 2 ^ e₁ / (m₂ * 2 ^ e₂) / 2 ^ E) ∧
      (leastNormal ≤ M ∨ E ≤ leastExponent) := by
  obtain ⟨E, target⟩ : ∃ E, min (e₁ - e₂) (Format.binary64.targetExponent
    (totalExponent m₁ e₁ - totalExponent m₂ e₂)) = E := ⟨_, rfl⟩
  obtain ⟨k, shift⟩ : ∃ k, (e₁ - e₂ - E).toNat = k := ⟨_, rfl⟩
  refine ⟨m₁ <<< k / m₂, E, accuracyOfFraction (m₁ <<< k % m₂) m₂, ?_, ?_, ?_⟩
  · simp only [UnpackedFloat.divCore, target, shift]
  · have exact := truncates_div (m₁ <<< k) pos₂
    have shifted : ((m₁ <<< k : Nat) : ℚ) / m₂ = m₁ * 2 ^ e₁ / (m₂ * 2 ^ e₂) / 2 ^ E := by
      have power : (2 : ℚ) ^ k = 2 ^ e₁ / 2 ^ e₂ / 2 ^ E := by
        rw [← zpow_natCast, ← zpow_sub₀ two_ne_zero, ← zpow_sub₀ two_ne_zero]
        congr 1
        omega
      rw [Nat.shiftLeft_eq]
      push_cast
      rw [power]
      field_simp
    rwa [shifted] at exact
  · by_cases low : E ≤ leastExponent
    · exact Or.inr low
    · refine Or.inl ((Nat.le_div_iff_mul_le pos₂).mpr ?_)
      rw [targetExponent_eq, totalExponent, totalExponent] at target
      have wide : 53 + m₂.log2 ≤ m₁.log2 + k := by omega
      have above : m₁ <<< k ≥ 2 ^ (m₁.log2 + k) := by
        rw [Nat.shiftLeft_eq, pow_add]
        exact Nat.mul_le_mul_right _ (Nat.log2_self_le pos₁.ne')
      calc leastNormal * m₂
        _ ≤ 2 ^ 52 * 2 ^ (m₂.log2 + 1) := Nat.mul_le_mul_left _ Nat.lt_log2_self.le
        _ = 2 ^ (53 + m₂.log2) := by rw [← pow_add]; congr 1; omega
        _ ≤ 2 ^ (m₁.log2 + k) := Nat.pow_le_pow_right two_pos wide
        _ ≤ m₁ <<< k := above

theorem div_eq {m₁ m₂ : Nat} {e₁ e₂ : Int} (h : RoundsTo (m₁ * 2 ^ e₁ / (m₂ * 2 ^ e₂)) m e)
    (grid : OnGrid m e) (pos₁ : 0 < m₁) (pos₂ : 0 < m₂) (s₁ s₂ : Sign) :
    UnpackedFloat.div Format.binary64 (.finite s₁ m₁ e₁ pos₁) (.finite s₂ m₂ e₂ pos₂) =
      ofPair (s₁ / s₂) m e := by
  obtain ⟨M, E, accuracy, core, truncates, enough⟩ := divCore_spec e₁ e₂ pos₁ pos₂
  simp only [UnpackedFloat.div, core]
  exact roundWithAccuracy_eq h grid truncates enough _

/-- A product of doubles has as many bits as its rounding needs. -/
theorem Canonical.bits_mul {m₁ m₂ : Nat} {e₁ e₂ : Int} (first : Canonical m₁ e₁)
    (second : Canonical m₂ e₂) : leastNormal ≤ m₁ * m₂ ∨ e₁ + e₂ ≤ leastExponent := by
  rcases first.normal with normal | rfl
  · exact Or.inl (normal.trans (Nat.le_mul_of_pos_right _ second.pos))
  · rcases second.normal with normal | rfl
    · exact Or.inl (normal.trans (Nat.le_mul_of_pos_left _ first.pos))
    · exact Or.inr (by decide)

theorem signOf_mul (n n' : Bool) : signOf n * signOf n' = signOf (n ^^ n') := by
  cases n <;> cases n' <;> rfl

theorem signOf_div (n n' : Bool) : signOf n / signOf n' = signOf (n ^^ n') := by
  cases n <;> cases n' <;> rfl

variable {x y : Float} {n n' : Bool} {m₁ m₂ : Nat} {e₁ e₂ : Int}

theorem Denotes.mul_eq_pack (hx : Denotes x n m₁ e₁) (hy : Denotes y n' m₂ e₂)
    (h : RoundsTo (m₁ * m₂ * 2 ^ (e₁ + e₂)) m e) (grid : OnGrid m e) :
    x * y = .ofModel (.pack (ofPair (signOf (n ^^ n')) m e)) := by
  rw [mul_unpacked, hx.unpack_eq, hy.unpack_eq,
    mul_eq h grid _ _ (hx.canonical.bits_mul hy.canonical), signOf_mul]

theorem Denotes.mul (hx : Denotes x n m₁ e₁) (hy : Denotes y n' m₂ e₂)
    (h : RoundsTo (m₁ * m₂ * 2 ^ (e₁ + e₂)) m e) (canonical : Canonical m e) :
    Denotes (x * y) (n ^^ n') m e := by
  rw [hx.mul_eq_pack hy h canonical.onGrid, canonical.ofPair_eq]
  exact denotes_pack canonical _

theorem Denotes.div_eq_pack (hx : Denotes x n m₁ e₁) (hy : Denotes y n' m₂ e₂)
    (h : RoundsTo (m₁ * 2 ^ e₁ / (m₂ * 2 ^ e₂)) m e) (grid : OnGrid m e) :
    x / y = .ofModel (.pack (ofPair (signOf (n ^^ n')) m e)) := by
  rw [div_unpacked, hx.unpack_eq, hy.unpack_eq, div_eq h grid, signOf_div]

/-! ### Zeros and units -/

theorem Denotes.mul_zero (hx : Denotes x n m e) (hy : IsZero y n') : IsZero (x * y) (n ^^ n') := by
  rw [mul_unpacked, hx.unpack_eq, hy, UnpackedFloat.mul, signOf_mul]
  exact isZero_pack _

theorem IsZero.mul (hx : IsZero x n) (hy : Denotes y n' m e) : IsZero (x * y) (n ^^ n') := by
  rw [mul_unpacked, hx, hy.unpack_eq, UnpackedFloat.mul, signOf_mul]
  exact isZero_pack _

theorem IsZero.div (hx : IsZero x n) (hy : Denotes y n' m e) : IsZero (x / y) (n ^^ n') := by
  rw [div_unpacked, hx, hy.unpack_eq, UnpackedFloat.div, signOf_div]
  exact isZero_pack _

theorem denotes_one : Denotes 1 false leastNormal (-52) :=
  ⟨⟨by decide, by decide, by decide, by decide, Or.inl (le_refl _)⟩, rfl⟩

theorem Denotes.unit_mul (hx : Denotes x n leastNormal (-52)) (hy : Denotes y n' m e) :
    Denotes (x * y) (n ^^ n') m e := by
  refine hx.mul hy ?_ hy.canonical
  have value : (leastNormal : ℚ) * m * 2 ^ (-52 + e) = m * 2 ^ e := by
    rw [zpow_add₀ two_ne_zero, mul_mul_mul_comm]
    norm_num [leastNormal]
  exact value ▸ hy.canonical.roundsTo

end

end Simplex.Double
