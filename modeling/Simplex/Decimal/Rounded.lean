import Simplex.Decimal.Parts

/-!
# Rounded decimals

The exact value of a double, rounded to a number of places (`fixed`) or of digits (`scientific`).
`roundHalfEven` rounds the exact quotient; a tie goes to the even neighbour.
-/

namespace Simplex.Decimal

/-- The integer nearest to `num / den`, the even one on a tie. -/
def roundHalfEven (num den : Nat) : Nat :=
  let q := num / den
  let twice := 2 * (num % den)
  if twice < den ∨ (twice = den ∧ q % 2 = 0) then q else q + 1

/-- The result is within half a unit of the quotient. -/
theorem roundHalfEven_near {num den : Nat} (h : 0 < den) :
    2 * num ≤ 2 * (roundHalfEven num den * den) + den ∧
      2 * (roundHalfEven num den * den) ≤ 2 * num + den := by
  have hq := Nat.div_add_mod num den
  have hr := Nat.mod_lt num h
  rw [Nat.mul_comm den] at hq
  unfold roundHalfEven
  dsimp only
  split
  · omega
  · rw [Nat.add_mul, Nat.one_mul]
    omega

theorem even_roundHalfEven_of_tie {num den : Nat} (h : 2 * (num % den) = den) :
    roundHalfEven num den % 2 = 0 := by
  unfold roundHalfEven
  dsimp only
  split <;> omega

/-- `x` to `k` places behind the point. -/
def fixed (k : Nat) (x : Float) : List Char :=
  match parts x with
  | .nan => ['N', 'a', 'N']
  | .infinite negative => signed negative ['i', 'n', 'f']
  | .finite negative m e =>
    signed negative (positional (roundHalfEven (coefficient m e * pow10 k) (pow10 (places e))) k)

/-- `n` to `k + 1` digits, and the number of digits of `n` that stand in front of the point. -/
def leading (k n : Nat) : Nat × Nat :=
  let width := (digits n).length
  let rounded := roundHalfEven (n * pow10 (k + 1)) (pow10 width)
  if rounded = pow10 (k + 1) then (pow10 k, width + 1) else (rounded, width)

/-- `x` with one digit in front of the point, `k` behind it, and the power of ten behind an `E`. -/
def scientific (k : Nat) (x : Float) : List Char :=
  match parts x with
  | .nan => ['N', 'a', 'N']
  | .infinite negative => signed negative ['i', 'n', 'f']
  | .finite negative 0 _ => signed negative (positional 0 k ++ ['E', '0'])
  | .finite negative m e =>
    let (rounded, width) := leading k (coefficient m e)
    let power : Int := width - 1 - places e
    signed negative
      (positional rounded k ++ 'E' :: signed (power < 0) (digits power.natAbs))

def fixedText (k : Nat) (x : Float) : String := String.ofList (fixed k x)

def scientificText (k : Nat) (x : Float) : String := String.ofList (scientific k x)

end Simplex.Decimal
