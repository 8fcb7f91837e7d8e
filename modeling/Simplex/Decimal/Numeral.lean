import Simplex.Scalar

/-!
# Numerals

Decimals as they are written. `Numeral.readMagnitude` reads the unsigned one that may begin a term,
and `Numeral.ofText?` a whole text with sign and exponent.
-/

namespace Simplex.Decimal

/-- The decimal `mantissa * 10 ^ exponent`, negated if `negative`. -/
structure Numeral where
  negative : Bool := false
  mantissa : Nat
  exponent : Int := 0
  deriving Repr, DecidableEq

/-- The number that a run of decimal digits writes. -/
def digitsValue (ds : List Char) : Nat :=
  ds.foldl (fun n d => 10 * n + (d.toNat - '0'.toNat)) 0

/-- Whether a minus sign begins the text, and the text behind a sign. -/
def readSign : List Char → Bool × List Char
  | '-' :: rest => (true, rest)
  | '+' :: rest => (false, rest)
  | text => (false, text)

namespace Numeral

def toScalar [Scalar α] (n : Numeral) : α :=
  let magnitude := Scalar.ofDecimal n.mantissa n.exponent
  if n.negative then -magnitude else magnitude

/-- The numeral `whole.fraction`. -/
def ofDigits (whole fraction : List Char) : Numeral where
  mantissa := digitsValue (whole ++ fraction)
  exponent := -(fraction.length : Int)

/-- Reads `digits[.digits]` or `.digits` from the front. A point that no digit follows is left
unread. -/
def readMagnitude (text : List Char) : Option (Numeral × List Char) :=
  let whole := text.takeWhile Char.isDigit
  let rest := text.dropWhile Char.isDigit
  match rest with
  | '.' :: d :: tail =>
    if d.isDigit then
      some (ofDigits whole (d :: tail.takeWhile Char.isDigit), tail.dropWhile Char.isDigit)
    else if whole = [] then none
    else some (ofDigits whole [], rest)
  | _ => if whole = [] then none else some (ofDigits whole [], rest)

/-- Reads the power of ten behind a mantissa: nothing, or `e` with a sign and digits to the end. -/
def readExponent : List Char → Option Int
  | [] => some 0
  | c :: text =>
    if c = 'e' ∨ c = 'E' then
      let (negative, ds) := readSign text
      if ds ≠ [] ∧ ds.all Char.isDigit then
        some (if negative then -(digitsValue ds : Int) else digitsValue ds)
      else none
    else none

/-- Reads a whole text `[sign]digits[.[digits]][exponent]` or `[sign].digits[exponent]`. -/
def ofText? (text : List Char) : Option Numeral :=
  let (negative, text) := readSign text
  let whole := text.takeWhile Char.isDigit
  let (fraction, rest) := match text.dropWhile Char.isDigit with
    | '.' :: tail => (tail.takeWhile Char.isDigit, tail.dropWhile Char.isDigit)
    | rest => ([], rest)
  if whole = [] ∧ fraction = [] then none
  else (readExponent rest).map fun e =>
    let n := ofDigits whole fraction
    { n with negative, exponent := n.exponent + e }

end Numeral

end Simplex.Decimal
