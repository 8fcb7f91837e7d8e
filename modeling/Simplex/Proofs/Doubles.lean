import Simplex.Decimal.Parts
import Mathlib

/-!
# Doubles by significand and exponent

A finite double other than zero is `m * 2 ^ e` for exactly one canonical pair (`Denotes`). Its bits
are taken apart as `Decimal.parts` does (`cases_of_isFinite`), a canonical pair is put together
without loss (`denotes_pack`), and signs and comparisons act on the pair.
-/

namespace Simplex.Double

open Float.Model (UnpackedFloat Format)
open Float.Model.UnpackedFloat (Sign packComponents unpackMantissa unpackExponent unpackSign)
open Decimal (leastNormal leastExponent parts)

/-- The significand and the exponent of a finite double other than zero. -/
structure Canonical (m : Nat) (e : Int) : Prop where
  pos : 0 < m
  lt : m < 2 * leastNormal
  least : leastExponent ≤ e
  greatest : e ≤ 971
  normal : leastNormal ≤ m ∨ e = leastExponent

def signOf (negative : Bool) : Sign := if negative then .negative else .positive

/-- The double is `m * 2 ^ e`, negated if `negative`. -/
structure Denotes (x : Float) (negative : Bool) (m : Nat) (e : Int) : Prop where
  canonical : Canonical m e
  unpack_eq : x.toModel.unpack = .finite (signOf negative) m e canonical.pos

/-- The double is one of the two zeros. -/
def IsZero (x : Float) (negative : Bool) : Prop := x.toModel.unpack = .zero (signOf negative)

/-! ### Operations on unpacked doubles -/

section
variable (x y : Float)

theorem isFinite_unpacked : x.isFinite = x.toModel.unpack.isFinite := rfl

theorem isNaN_unpacked : x.isNaN = x.toModel.unpack.isNaN := rfl

theorem abs_unpacked : x.abs = .ofModel (.pack x.toModel.unpack.abs) := rfl

theorem neg_unpacked : -x = .ofModel (.pack x.toModel.unpack.neg) := rfl

theorem add_unpacked :
    x + y = .ofModel (.pack (.add Format.binary64 x.toModel.unpack y.toModel.unpack)) := rfl

theorem sub_unpacked :
    x - y = .ofModel (.pack (.sub Format.binary64 x.toModel.unpack y.toModel.unpack)) := rfl

theorem mul_unpacked :
    x * y = .ofModel (.pack (.mul Format.binary64 x.toModel.unpack y.toModel.unpack)) := rfl

theorem div_unpacked :
    x / y = .ofModel (.pack (.div Format.binary64 x.toModel.unpack y.toModel.unpack)) := rfl

theorem beq_unpacked : (x == y) = x.toModel.unpack.beq y.toModel.unpack := rfl

end

/-! ### Fields of bits -/

theorem toNat_mantissa (b : BitVec 64) :
    (@unpackMantissa Format.binary64 b).toNat = b.toNat % leastNormal := by
  simp [unpackMantissa, leastNormal]

theorem toNat_exponent (b : BitVec 64) :
    (@unpackExponent Format.binary64 b).toNat = b.toNat / leastNormal % 2048 := by
  simp [unpackExponent, Nat.shiftRight_eq_div_pow, leastNormal]

theorem mantissa_eq_zero_iff (b : BitVec 64) :
    @unpackMantissa Format.binary64 b = 0#_ ↔ b.toNat % leastNormal = 0 := by
  rw [← toNat_mantissa, ← BitVec.toNat_inj]
  rfl

theorem exponent_eq_zero_iff (b : BitVec 64) :
    @unpackExponent Format.binary64 b = 0#_ ↔ b.toNat / leastNormal % 2048 = 0 := by
  rw [← toNat_exponent, ← BitVec.toNat_inj]
  rfl

theorem exponent_eq_ones_iff (b : BitVec 64) :
    @unpackExponent Format.binary64 b = -1#_ ↔ b.toNat / leastNormal % 2048 = 2047 := by
  rw [← toNat_exponent, ← BitVec.toNat_inj]
  rfl

theorem toNat_sign (b : BitVec 64) :
    (@unpackSign Format.binary64 b).toNat = b.toNat / leastNormal / 2048 := by
  have bound : b.toNat < 2 ^ 64 := b.isLt
  have lift : (@unpackSign Format.binary64 b).toNat = b.toNat / 2 ^ 63 % 2 := by
    simp [unpackSign, Nat.shiftRight_eq_div_pow]
  rw [lift, leastNormal]
  omega

theorem toNat_implicit (m : BitVec 52) : (1#1 ++ m).toNat = leastNormal + m.toNat := by
  have bound := m.isLt
  rw [BitVec.toNat_append, ← Nat.shiftLeft_add_eq_or_of_lt bound]
  rfl

theorem unpackSign_packComponents (s : Sign) (e : BitVec 11) (m : BitVec 52) :
    unpackSign (packComponents Format.binary64 s e m) = s.toBitVec := by
  simp only [unpackSign, packComponents, BitVec.extractLsb]
  rw [BitVec.extractLsb'_append_eq_of_le (by decide),
    BitVec.extractLsb'_append_eq_of_le (by decide)]
  cases s <;> rfl

theorem ofBitVec_toBitVec (s : Sign) : Sign.ofBitVec s.toBitVec = s := by
  cases s <;> rfl

theorem ofBitVec_unpackSign (b : BitVec 64) :
    Sign.ofBitVec (@unpackSign Format.binary64 b) =
      signOf (b.toNat / leastNormal / 2048 == 1) := by
  have small : (@unpackSign Format.binary64 b).toNat < 2 := BitVec.isLt _
  have zero : @unpackSign Format.binary64 b = 0#1 ↔ b.toNat / leastNormal / 2048 = 0 := by
    rw [← toNat_sign, ← BitVec.toNat_inj]
    rfl
  rw [toNat_sign] at small
  by_cases clear : b.toNat / leastNormal / 2048 = 0
  · rw [Sign.ofBitVec, if_pos (zero.mpr clear), clear]
    rfl
  · have set : b.toNat / leastNormal / 2048 = 1 := by
      generalize b.toNat / leastNormal / 2048 = n at small clear
      omega
    rw [Sign.ofBitVec, if_neg (mt zero.mp clear), set]
    rfl

/-! ### Taking doubles apart -/

theorem signOf_inj {n n' : Bool} (same : signOf n = signOf n') : n = n' := by
  cases n <;> cases n' <;> first | rfl | cases same

theorem denotes_of_unpack {x : Float} {n : Bool} {m m' : Nat} {e e' : Int} {pos : 0 < m'}
    (unpacked : x.toModel.unpack = .finite (signOf n) m' e' pos) (same : m' = m) (same' : e' = e)
    (canonical : Canonical m e) : Denotes x n m e := by
  subst same same'
  exact ⟨canonical, unpacked⟩

/-- A finite double and its parts, from its bits. -/
theorem cases_of_isFinite {x : Float} (finite : x.isFinite = true) :
    (∃ n, IsZero x n ∧ parts x = .finite n 0 leastExponent) ∨
      ∃ n m e, Denotes x n m e ∧ parts x = .finite n m e := by
  set b : BitVec 64 := x.toModel.toBits.toBitVec
  have bits : x.toBits.toNat = b.toNat := rfl
  have exponent := toNat_exponent b
  have mantissa := toNat_mantissa b
  have fields : b.toNat / leastNormal % 2048 < 2048 := Nat.mod_lt _ (by decide)
  have fraction : b.toNat % leastNormal < leastNormal := Nat.mod_lt _ (by decide)
  have unpacked : x.toModel.unpack = UnpackedFloat.unpack Format.binary64 b := rfl
  have implicit := toNat_implicit (@unpackMantissa Format.binary64 b)
  rw [UnpackedFloat.unpack, ofBitVec_unpackSign] at unpacked
  simp only [exponent_eq_ones_iff b, exponent_eq_zero_iff b, mantissa_eq_zero_iff b] at unpacked
  have apart : parts x = parts x := rfl
  conv_rhs at apart => rw [parts, bits]
  generalize (b.toNat / leastNormal / 2048 == 1) = negative at unpacked apart
  -- Both readings of the bits split on the exponent field: all ones, zero, and what lies between.
  by_cases full : b.toNat / leastNormal % 2048 = 2047
  · rw [if_pos full] at unpacked
    rw [isFinite_unpacked, unpacked] at finite
    split at finite <;> cases finite
  rw [if_neg full] at unpacked apart
  by_cases least : b.toNat / leastNormal % 2048 = 0
  · rw [if_pos least] at unpacked apart
    by_cases zero : b.toNat % leastNormal = 0
    · rw [dif_pos zero] at unpacked
      rw [zero] at apart
      exact Or.inl ⟨negative, unpacked, apart⟩
    · rw [dif_neg zero] at unpacked
      refine Or.inr ⟨negative, _, _, denotes_of_unpack unpacked mantissa ?_ ?_, apart⟩
      · rw [exponent, least]
        rfl
      · exact ⟨by omega, by omega, le_refl _, by decide, Or.inr rfl⟩
  · rw [if_neg least] at unpacked apart
    refine Or.inr ⟨negative, _, _, denotes_of_unpack unpacked ?_ ?_ ?_, apart⟩
    · rw [implicit, mantissa]
    · rw [exponent, leastExponent]
      have bias : ((Format.binary64.exponentBias : Int) + (52 : Nat)) = 1075 := rfl
      omega
    · refine ⟨by omega, by omega, ?_, ?_, Or.inl (Nat.le_add_right _ _)⟩
      · rw [leastExponent]
        omega
      · rw [leastExponent]
        omega

section
variable {x : Float} {n : Bool} {m : Nat} {e : Int}

theorem Denotes.isFinite (h : Denotes x n m e) : x.isFinite = true := by
  rw [isFinite_unpacked, h.unpack_eq]
  rfl

theorem IsZero.isFinite (h : IsZero x n) : x.isFinite = true := by
  rw [isFinite_unpacked, h]
  rfl

theorem parts_of_denotes (h : Denotes x n m e) : parts x = .finite n m e := by
  rcases cases_of_isFinite h.isFinite with ⟨n', zero, -⟩ | ⟨n', m', e', denotes, apart⟩
  · cases h.unpack_eq.symm.trans zero
  · obtain ⟨sign, same, same'⟩ :=
      UnpackedFloat.finite.inj (h.unpack_eq.symm.trans denotes.unpack_eq)
    rw [apart, signOf_inj sign, same, same']

theorem parts_of_isZero (h : IsZero x n) : parts x = .finite n 0 leastExponent := by
  rcases cases_of_isFinite h.isFinite with ⟨n', zero, apart⟩ | ⟨n', m', e', denotes, -⟩
  · rw [apart, signOf_inj (UnpackedFloat.zero.inj (h.symm.trans zero))]
  · cases h.symm.trans denotes.unpack_eq

end

/-! ### Putting doubles together -/

theorem unpack_pack (f : UnpackedFloat) : (Float.ofModel (.pack f)).toModel.unpack =
    UnpackedFloat.unpack Format.binary64 (UnpackedFloat.pack Format.binary64 f) := rfl

theorem isZero_pack (n : Bool) : IsZero (.ofModel (.pack (.zero (signOf n)))) n := by
  cases n <;> rfl

theorem unpack_packComponents_subnormal {s : Sign} {m : BitVec 52} (pos : 0 < m.toNat) :
    UnpackedFloat.unpack Format.binary64 (packComponents Format.binary64 s 0#11 m) =
      .finite s m.toNat leastExponent pos := by
  have some : m ≠ 0#52 := by
    rintro rfl
    exact absurd pos (by decide)
  have small : (0#11 : BitVec 11) ≠ -1#11 := by decide
  unfold UnpackedFloat.unpack
  simp only [UnpackedFloat.unpackMantissa_packComponents,
    UnpackedFloat.unpackExponent_packComponents, unpackSign_packComponents, ofBitVec_toBitVec,
    if_neg small, dif_neg some]
  rfl

theorem unpack_packComponents_normal {s : Sign} {e : BitVec 11} {m : BitVec 52}
    (finite : e ≠ -1#11) (some : e ≠ 0#11) (pos : 0 < leastNormal + m.toNat) :
    UnpackedFloat.unpack Format.binary64 (packComponents Format.binary64 s e m) =
      .finite s (leastNormal + m.toNat) (e.toNat - 1075) pos := by
  unfold UnpackedFloat.unpack
  simp only [UnpackedFloat.unpackMantissa_packComponents,
    UnpackedFloat.unpackExponent_packComponents, unpackSign_packComponents, ofBitVec_toBitVec,
    if_neg finite, if_neg some, toNat_implicit]
  rfl

theorem log2_add_one_eq {m : Nat} (pos : 0 < m) (bound : m < 2 * leastNormal) :
    m.log2 + 1 = Format.binary64.mantissaBits ↔ leastNormal ≤ m := by
  have bits : Format.binary64.mantissaBits = 53 := rfl
  have normal : leastNormal = 2 ^ 52 := rfl
  have less : m.log2 < 53 := (Nat.log2_lt pos.ne').mpr (by omega)
  rw [bits, normal, ← Nat.le_log2 pos.ne']
  omega

theorem denotes_pack {m : Nat} {e : Int} (canonical : Canonical m e) (n : Bool) :
    Denotes (.ofModel (.pack (.finite (signOf n) m e canonical.pos))) n m e := by
  have least := canonical.least
  have greatest := canonical.greatest
  have bound := canonical.lt
  rw [leastExponent] at least
  obtain ⟨b, biased⟩ : ∃ b : Nat, (b : Int) = e + 1075 := ⟨(e + 1075).toNat, by omega⟩
  have field : (e + Format.binary64.exponentBias + (52 : Nat)).toNat = b := by
    have bias : (Format.binary64.exponentBias : Int) = 1023 := rfl
    omega
  have fits : ¬ 2 ^ 11 ≤ b + 1 := by omega
  have packed := unpack_pack (.finite (signOf n) m e canonical.pos)
  rw [UnpackedFloat.pack] at packed
  dsimp only at packed
  rw [field, if_neg fits] at packed
  by_cases normal : leastNormal ≤ m
  · rw [if_pos ((log2_add_one_eq canonical.pos bound).mpr normal)] at packed
    have exponent : (BitVec.ofNat 11 b).toNat = b := by
      rw [BitVec.toNat_ofNat, Nat.mod_eq_of_lt (by omega)]
    have mantissa : leastNormal + (BitVec.ofNat 52 m).toNat = m := by
      rw [BitVec.toNat_ofNat]
      rw [leastNormal] at *
      omega
    have finite : BitVec.ofNat 11 b ≠ -1#11 := by
      intro full
      have all : b = 2047 := exponent.symm.trans (congrArg BitVec.toNat full)
      omega
    have some : BitVec.ofNat 11 b ≠ 0#11 := by
      intro none
      have zero : b = 0 := exponent.symm.trans (congrArg BitVec.toNat none)
      omega
    have pos : 0 < leastNormal + (BitVec.ofNat 52 m).toNat := by
      rw [mantissa]
      exact canonical.pos
    refine denotes_of_unpack (packed.trans (unpack_packComponents_normal finite some pos))
      mantissa ?_ canonical
    rw [exponent]
    omega
  · rw [if_neg (mt (log2_add_one_eq canonical.pos bound).mp normal)] at packed
    have mantissa : (BitVec.ofNat 52 m).toNat = m := by
      rw [BitVec.toNat_ofNat]
      rw [leastNormal] at *
      omega
    have pos : 0 < (BitVec.ofNat 52 m).toNat := by
      rw [mantissa]
      exact canonical.pos
    exact denotes_of_unpack (packed.trans (unpack_packComponents_subnormal pos)) mantissa
      (canonical.normal.resolve_left normal).symm canonical

/-! ### Signs and comparisons -/

section
variable {x y : Float} {n n' : Bool} {m : Nat} {e : Int}

theorem Denotes.abs (h : Denotes x n m e) : Denotes x.abs false m e := by
  rw [abs_unpacked, h.unpack_eq]
  exact denotes_pack h.canonical false

theorem IsZero.abs (h : IsZero x n) : IsZero x.abs false := by
  rw [abs_unpacked, h]
  exact isZero_pack false

theorem neg_signOf (n : Bool) : -signOf n = signOf !n := by
  cases n <;> rfl

theorem Denotes.neg (h : Denotes x n m e) : Denotes (-x) (!n) m e := by
  rw [neg_unpacked, h.unpack_eq, UnpackedFloat.neg, neg_signOf]
  exact denotes_pack h.canonical !n

theorem IsZero.neg (h : IsZero x n) : IsZero (-x) !n := by
  rw [neg_unpacked, h, UnpackedFloat.neg, neg_signOf]
  exact isZero_pack !n

theorem isFinite_neg_iff : (-x).isFinite = true ↔ x.isFinite = true := by
  constructor
  · intro finite
    rw [neg_unpacked, isFinite_unpacked] at finite
    rw [isFinite_unpacked]
    cases unpacked : x.toModel.unpack with
    | infinity s =>
      rw [unpacked] at finite
      cases s <;> cases finite
    | notANumber =>
      rw [unpacked] at finite
      cases finite
    | zero s => rfl
    | finite s m e pos => rfl
  · intro finite
    rcases cases_of_isFinite finite with ⟨n, zero, -⟩ | ⟨n, m, e, denotes, -⟩
    · exact zero.neg.isFinite
    · exact denotes.neg.isFinite

theorem lt_zero (x : Float) : x < 0 ↔ x.toModel.unpack.lt (.zero .positive) = true := by
  show decide (x.toModel.unpack.lt (Float.toModel 0).unpack = true) = true ↔ _
  rw [decide_eq_true_iff]
  rfl

theorem Denotes.lt_zero_iff (h : Denotes x n m e) : x < 0 ↔ n = true := by
  rw [lt_zero, h.unpack_eq]
  cases n <;> simp [signOf, UnpackedFloat.lt, UnpackedFloat.compare]

theorem IsZero.not_lt_zero (h : IsZero x n) : ¬ x < 0 := by
  rw [lt_zero, h]
  cases n <;> decide

theorem Denotes.beq (h : Denotes x n m e) (h' : Denotes y n m e) : (x == y) = true := by
  rw [beq_unpacked, h.unpack_eq, h'.unpack_eq]
  cases n <;> simp [signOf, UnpackedFloat.beq, UnpackedFloat.compare]

theorem IsZero.beq (h : IsZero x n) (h' : IsZero y n') : (x == y) = true := by
  rw [beq_unpacked, h, h']
  rfl

end

end Simplex.Double
