/-!
# Scalars

The numbers that a tableau is made of. Every definition of the method is written over `Scalar`, so
that one text of it runs on doubles and is read over exact rationals: no law of arithmetic is
assumed here, and a comparison may fail on both sides, as it does with a NaN.
-/

namespace Simplex

/-- Arithmetic with an order, a tolerance and a reading of decimals. -/
class Scalar (α : Type) extends
    Zero α, One α, Add α, Sub α, Mul α, Div α, Neg α, LT α, LE α, BEq α where
  decidableLT : DecidableLT α
  decidableLE : DecidableLE α
  abs : α → α
  /-- Entries below it in magnitude count as zero: `10 ^ (-9)`. -/
  tolerance : α
  /-- The scalar nearest to `mantissa * 10 ^ exponent`. -/
  ofDecimal : (mantissa : Nat) → (exponent : Int) → α
  isFinite : α → Bool

instance (priority := low) instDecidableLTOfScalar [Scalar α] : DecidableLT α := Scalar.decidableLT

instance (priority := low) instDecidableLEOfScalar [Scalar α] : DecidableLE α := Scalar.decidableLE

namespace Scalar

/-- Doubles, each operation rounding to nearest. -/
instance instFloat : Scalar Float where
  zero := 0
  one := 1
  decidableLT := inferInstance
  decidableLE := inferInstance
  abs := Float.abs
  tolerance := 1e-9
  ofDecimal mantissa
    | .ofNat e => Float.ofScientific mantissa false e
    | .negSucc e => Float.ofScientific mantissa true (e + 1)
  isFinite := Float.isFinite

/-- Exact rationals, each operation without error. -/
instance instRat : Scalar Rat where
  zero := 0
  one := 1
  toAdd := Rat.instAdd
  toSub := Rat.instSub
  toMul := Rat.instMul
  toDiv := Rat.instDiv
  toNeg := Rat.instNeg
  toLT := Rat.instLT
  toLE := Rat.instLE
  toBEq := instBEqOfDecidableEq
  decidableLT := Rat.instDecidableLt
  decidableLE := Rat.instDecidableLe
  abs := Rat.abs
  tolerance := mkRat 1 1000000000
  ofDecimal mantissa
    | .ofNat e => mkRat (mantissa * Nat.pow 10 e : Nat) 1
    | .negSucc e => mkRat mantissa (Nat.pow 10 (e + 1))
  isFinite _ := true

end Scalar

end Simplex
