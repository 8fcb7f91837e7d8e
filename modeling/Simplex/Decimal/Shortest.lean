import Simplex.Decimal.Parts

/-!
# Shortest decimals

The fewest digits that read back as a double. The decimals that read as one double fill an interval
around it; the coarsest power of ten with a multiple in that interval gives the fewest digits, and
of two multiples the nearer is taken, the larger on a tie. `shortest` writes the result in full,
never with an exponent and with no point behind an integer.
-/

namespace Simplex.Decimal

/-- The decimals that read as one double: `c / 10 ^ places` for `c` between `low` and `high`, the
ends included if `closed`. The double itself is at `mid`. -/
structure Interval where
  low : Nat
  mid : Nat
  high : Nat
  places : Nat
  closed : Bool

namespace Interval

/-- Half the gap to each neighbour, in quarters of the last place. The gap below is half as wide at
the foot of a binade. A point halfway between two doubles reads as the one with even significand. -/
def around (significand : Nat) (exponent : Int) : Interval where
  low := coefficient (4 * significand -
    if significand = leastNormal ∧ exponent ≠ leastExponent then 1 else 2) (exponent - 2)
  mid := coefficient (4 * significand) (exponent - 2)
  high := coefficient (4 * significand + 2) (exponent - 2)
  places := Decimal.places (exponent - 2)
  closed := significand % 2 == 0

def contains (i : Interval) (c : Nat) : Bool :=
  if i.closed then i.low ≤ c && c ≤ i.high else i.low < c && c < i.high

/-- The multiplier of the multiple of `step` inside that is nearest to the middle. -/
def pointOn (i : Interval) (step : Nat) : Option Nat :=
  let below := i.mid / step
  let above := below + 1
  match i.contains (below * step), i.contains (above * step) with
  | true, true => some (if i.mid - below * step < above * step - i.mid then below else above)
  | true, false => some below
  | false, true => some above
  | false, false => none

/-- Between a point inside and the middle all points are inside. -/
theorem contains_of_between {i : Interval} {c d : Nat} (hm : i.contains i.mid) (hc : i.contains c)
    (h : c ≤ d ∧ d ≤ i.mid ∨ i.mid ≤ d ∧ d ≤ c) : i.contains d := by
  unfold contains at *
  split at hm <;> simp_all <;> omega

/-- A grid without a point inside is one that has no multiple inside at all. -/
theorem pointOn_eq_none_iff {i : Interval} {step : Nat} (hm : i.contains i.mid) (hs : 0 < step) :
    i.pointOn step = none ↔ ∀ c, i.contains (c * step) = false := by
  constructor
  · intro h c
    cases hc : i.contains (c * step) with
    | false => rfl
    | true =>
      exfalso
      have hle : i.mid / step * step ≤ i.mid := Nat.div_mul_le_self i.mid step
      have hlt : i.mid < (i.mid / step + 1) * step := by
        rw [Nat.mul_comm]
        exact Nat.lt_mul_div_succ i.mid hs
      rcases Nat.lt_or_ge (i.mid / step) c with hbelow | habove
      · have hmul := Nat.mul_le_mul_right step hbelow
        have hin := contains_of_between hm hc (.inr ⟨Nat.le_of_lt hlt, hmul⟩)
        unfold pointOn at h
        simp only [hin] at h
        split at h <;> simp_all
      · have hmul := Nat.mul_le_mul_right step habove
        have hin := contains_of_between hm hc (.inl ⟨hmul, hle⟩)
        unfold pointOn at h
        simp only [hin] at h
        split at h <;> simp_all
  · intro h
    simp [pointOn, h]

/-- The digits and the power of ten of the point on the coarsest grid that has one, no coarser than
`10 ^ grid`. -/
def coarsest (i : Interval) : (grid : Nat) → Nat × Nat
  | 0 => (i.mid, 0)
  | g + 1 =>
    match i.pointOn (pow10 (g + 1)) with
    | some c => (c, g + 1)
    | none => i.coarsest g

/-- The shortest decimal in the interval, written in full. -/
def text (i : Interval) : List Char :=
  let (c, grid) := i.coarsest (digits i.high).length
  if i.places ≤ grid then positional (c * pow10 (grid - i.places)) 0
  else positional c (i.places - grid)

end Interval

/-- The fewest digits that read back as `x`. -/
def shortest (x : Float) : List Char :=
  match parts x with
  | .nan => ['N', 'a', 'N']
  | .infinite negative => signed negative ['i', 'n', 'f']
  | .finite negative 0 _ => signed negative ['0']
  | .finite negative significand exponent =>
    signed negative (Interval.around significand exponent).text

def shortestText (x : Float) : String := String.ofList (shortest x)

end Simplex.Decimal
