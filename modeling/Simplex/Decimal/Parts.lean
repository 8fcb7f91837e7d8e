/-!
# Doubles as exact decimals

A finite double is `significand * 2 ^ exponent`, and `2 ^ (-k)` is `5 ^ k / 10 ^ k`, so it is also
an integer over a power of ten. `parts` takes a double apart; `coefficient` and `places` give the
integer and the power.
-/

namespace Simplex.Decimal

/-- A double taken apart. A finite one is `significand * 2 ^ exponent`, with its sign aside. -/
inductive Parts where
  | nan
  | infinite (negative : Bool)
  | finite (negative : Bool) (significand : Nat) (exponent : Int)
  deriving Repr, DecidableEq

/-- The least exponent of a double, that of the subnormal ones. -/
def leastExponent : Int := -1074

/-- The least significand of a normal double: `2` to the power 52. -/
def leastNormal : Nat := 4503599627370496

/-- Sign, eleven bits of exponent and fifty-two bits of fraction, from the top bit down. -/
def parts (x : Float) : Parts :=
  let bits := x.toBits.toNat
  let negative := bits / leastNormal / 2048 == 1
  let field := bits / leastNormal % 2048
  let fraction := bits % leastNormal
  if field = 2047 then
    if fraction = 0 then .infinite negative else .nan
  else if field = 0 then .finite negative fraction leastExponent
  else .finite negative (leastNormal + fraction) (leastExponent + (field - 1 : Nat))

def pow10 (k : Nat) : Nat := Nat.pow 10 k

/-- The integer `c` with `significand * 2 ^ exponent = c / 10 ^ places exponent`. -/
def coefficient (significand : Nat) : Int → Nat
  | .ofNat e => significand * Nat.pow 2 e
  | .negSucc e => significand * Nat.pow 5 (e + 1)

theorem coefficient_neg (significand k : Nat) :
    coefficient significand (-(k : Int)) * Nat.pow 2 k = significand * pow10 k := by
  cases k with
  | zero => simp [coefficient, pow10]
  | succ k =>
    have h : Nat.pow 5 (k + 1) * Nat.pow 2 (k + 1) = pow10 (k + 1) := (Nat.mul_pow 5 2 (k + 1)).symm
    rw [show (-((k + 1 : Nat) : Int)) = .negSucc k from rfl, coefficient, Nat.mul_assoc, h]

/-- Decimal places that a multiple of `2 ^ exponent` needs. -/
def places (exponent : Int) : Nat := (-exponent).toNat

/-- The digits of `n`, at least one. -/
def digits (n : Nat) : List Char := Nat.toDigits 10 n

def signed (negative : Bool) (text : List Char) : List Char :=
  if negative then '-' :: text else text

/-- `n / 10 ^ places` in full, with that many places behind the point and no point for none. -/
def positional (n places : Nat) : List Char :=
  digits (n / pow10 places) ++
    if places = 0 then [] else '.' :: (digits (n % pow10 places)).leftpad places '0'

end Simplex.Decimal
