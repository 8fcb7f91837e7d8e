import Simplex.Decimal.Rounded
import Simplex.Proofs.DoubleOrder
import Simplex.Proofs.ShortestDecimals

/-!
# Rounded decimals

A quotient of integers is rounded to the nearest integer, the even one of two
(`nearest_roundHalfEven`). So a finite double written to `k` places is its sign and the integer
nearest to `10 ^ k` times its magnitude (`exists_fixed`), and the text shows both
(`signed_positional_inj`).
-/

namespace Simplex.Double

open Decimal (leastExponent parts)

/-- A rational rounds to zero if it is at most one half, for a tie goes to the even neighbour. -/
theorem Nearest.eq_zero_iff {q : ℚ} {r : Nat} (h : Nearest q r) : r = 0 ↔ q ≤ 1 / 2 := by
  constructor
  · rintro rfl
    simpa using h.high
  · intro small
    have low := h.low
    have bound : (r : ℚ) ≤ 1 := by linarith
    have cases : r = 0 ∨ r = 1 := by
      have bound : r ≤ 1 := by exact_mod_cast bound
      omega
    refine cases.resolve_right ?_
    rintro rfl
    have strictly := (h.inside rfl).1
    norm_num at strictly
    linarith

/-! ### Sums with zero -/

section
variable {x : Float} {n : Bool} {m : Nat} {e : Int}

theorem Denotes.add_zero (h : Denotes x n m e) : Denotes (x + 0) n m e := by
  have zero : (0 : Float).toModel.unpack = .zero .positive := rfl
  rw [add_unpacked, h.unpack_eq, zero]
  exact denotes_pack h.canonical n

/-- A zero loses its sign. -/
theorem IsZero.add_zero (h : IsZero x n) : IsZero (x + 0) false := by
  have zero : (0 : Float).toModel.unpack = .zero .positive := rfl
  rw [add_unpacked, h, zero]
  cases n <;> exact isZero_pack false

/-- The sum with zero has the magnitude of the double, and a sign just if that is negative. -/
theorem exists_parts_add_zero (finite : x.isFinite = true) :
    ∃ m e, parts (x + 0) = .finite (decide (value x < 0)) m e ∧ |value x| = m * 2 ^ e := by
  rcases cases_of_isFinite finite with ⟨n, zero, -⟩ | ⟨n, m, e, denotes, -⟩
  · have unsigned : decide (value x < 0) = false := by
      rw [value_of_isZero zero, decide_eq_false_iff_not]
      exact lt_irrefl 0
    refine ⟨0, leastExponent, ?_, ?_⟩
    · rw [parts_of_isZero zero.add_zero, unsigned]
    · rw [value_of_isZero zero, abs_zero, Nat.cast_zero, zero_mul]
  · have sign : decide (value x < 0) = n := by
      cases n
      · exact decide_eq_false denotes.value_pos.not_gt
      · exact decide_eq_true denotes.value_neg
    refine ⟨m, e, ?_, denotes.abs_value⟩
    rw [parts_of_denotes denotes.add_zero, sign]

end

end Simplex.Double

namespace Simplex.Decimal

open Double (Nearest value)

/-! ### Rounding -/

/-- An odd multiple of half the denominator lies halfway between two integers. -/
theorem tie_of_odd {num den c : Nat} (pos : 0 < den) (h : 2 * num = (2 * c + 1) * den) :
    2 * (num % den) = den := by
  have whole : 2 * num = 2 * den * c + den := by
    rw [h]
    ring
  calc 2 * (num % den)
    _ = 2 * num % (2 * den) := (Nat.mul_mod_mul_left 2 num den).symm
    _ = den := by rw [whole, Nat.mul_add_mod, Nat.mod_eq_of_lt (by omega)]

theorem nearest_roundHalfEven (num : Nat) {den : Nat} (pos : 0 < den) :
    Nearest (num / den) (roundHalfEven num den) := by
  obtain ⟨above, below⟩ := @roundHalfEven_near num den pos
  have tie := @even_roundHalfEven_of_tie num den
  generalize roundHalfEven num den = r at above below tie
  have posQ : (0 : ℚ) < den := Nat.cast_pos.mpr pos
  have aboveQ : (2 : ℚ) * num ≤ 2 * (r * den) + den := by exact_mod_cast above
  have belowQ : (2 : ℚ) * (r * den) ≤ 2 * num + den := by exact_mod_cast below
  refine ⟨?_, ?_, fun odd => ?_⟩
  · rw [le_div_iff₀ posQ]
    linarith
  · rw [div_le_iff₀ posQ]
    linarith
  · -- an odd integer is not the one that a tie goes to
    have high : 2 * num ≠ 2 * (r * den) + den := fun equal => by
      have even := tie (tie_of_odd (c := r) pos (by rw [equal]; ring))
      omega
    have low : 2 * (r * den) ≠ 2 * num + den := fun equal => by
      obtain ⟨c, rfl⟩ : ∃ c, r = c + 1 := ⟨r - 1, by omega⟩
      have even := tie (tie_of_odd (c := c) pos (by linarith))
      omega
    have highQ : (2 : ℚ) * num < 2 * (r * den) + den := by exact_mod_cast above.lt_of_ne high
    have lowQ : (2 : ℚ) * (r * den) < 2 * num + den := by exact_mod_cast below.lt_of_ne low
    rw [lt_div_iff₀ posQ, div_lt_iff₀ posQ]
    constructor <;> linarith

/-! ### Doubles -/

section
variable {x : Float} {negative : Bool} {m : Nat} {e : Int}

theorem abs_value_of_parts (apart : parts x = .finite negative m e) :
    |value x| = m * 2 ^ e := by
  have nonneg : (0 : ℚ) ≤ m * 2 ^ e := by positivity
  rw [value, apart]
  cases negative <;> simp [abs_of_nonneg nonneg]

/-- What is written of a finite double is its sign and the integer nearest to its magnitude in units
of the last place. -/
theorem exists_fixed (apart : parts x = .finite negative m e) (k : Nat) :
    ∃ n, Nearest (10 ^ k * |value x|) n ∧ fixed k x = signed negative (positional n k) := by
  have pos : 0 < pow10 (places e) := Nat.pow_pos (by decide)
  have nearest := nearest_roundHalfEven (coefficient m e * pow10 k) pos
  have scaled : ((coefficient m e * pow10 k : Nat) : ℚ) / (pow10 (places e) : Nat) =
      10 ^ k * |value x| := by
    rw [Nat.cast_mul, cast_pow10, cast_pow10, mul_div_right_comm, coefficient_div, mul_comm,
      abs_value_of_parts apart]
  rw [scaled] at nearest
  refine ⟨_, nearest, ?_⟩
  rw [fixed, apart]

end

/-! ### Texts -/

/-- Sign and digits can be read off, as a number is read. -/
theorem signed_positional_inj {negative negative' : Bool} {n n' k : Nat} :
    signed negative (positional n k) = signed negative' (positional n' k) ↔
      negative = negative' ∧ n = n' := by
  constructor
  · intro same
    have read := congrArg Numeral.ofText? same
    rw [ofText?_positional, ofText?_positional] at read
    cases read
    exact ⟨rfl, rfl⟩
  · rintro ⟨rfl, rfl⟩
    rfl

end Simplex.Decimal
