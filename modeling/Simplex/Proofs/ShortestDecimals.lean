import Simplex.Decimal.Numeral
import Simplex.Decimal.Shortest
import Simplex.Proofs.DecimalDoubles

/-!
# Shortest decimals read back

The interval in which the shortest decimal of a double is sought holds only decimals that round to
the double (`roundsTo_of_contains`), and the digits written are read as written
(`readMagnitude_positional`, `ofText?_positional`): what `shortest` writes of a finite double reads
back as that double.
-/

namespace Simplex.Decimal

open Double (Canonical RoundsTo Denotes IsZero gapBelow)

/-! ### The interval of a double -/

theorem cast_coefficient (s : Nat) (e : Int) :
    (coefficient s e : ℚ) = s * 2 ^ e * 10 ^ places e := by
  cases e with
  | ofNat e =>
    have none : places (.ofNat e) = 0 :=
      Int.toNat_of_nonpos (Int.neg_nonpos_of_nonneg (Int.natCast_nonneg e))
    rw [none, coefficient, pow_zero, mul_one]
    show ((s * 2 ^ e : Nat) : ℚ) = s * 2 ^ (e : Int)
    push_cast
    rw [zpow_natCast]
  | negSucc e =>
    have some : places (.negSucc e) = e + 1 := rfl
    rw [some, coefficient, zpow_negSucc]
    show ((s * 5 ^ (e + 1) : Nat) : ℚ) = _
    push_cast
    rw [show (10 : ℚ) = 2 * 5 by norm_num, mul_pow, mul_assoc, inv_mul_cancel_left₀ (by positivity)]

theorem cast_pow10 (k : Nat) : ((pow10 k : Nat) : ℚ) = 10 ^ k := by
  show ((10 ^ k : Nat) : ℚ) = _
  push_cast
  rfl

theorem coefficient_div (s : Nat) (e : Int) :
    (coefficient s e : ℚ) / 10 ^ places e = s * 2 ^ e := by
  rw [cast_coefficient, mul_div_cancel_right₀ _ (by positivity)]

namespace Interval

section
variable {m : Nat} {e : Int}

theorem low_around (m : Nat) (e : Int) :
    (around m e).low = coefficient (4 * m - gapBelow m e) (e - 2) := rfl

theorem contains_iff (i : Interval) (c : Nat) :
    i.contains c = true ↔
      (i.low ≤ c ∧ c ≤ i.high) ∧ (i.closed = false → i.low < c ∧ c < i.high) := by
  unfold contains
  cases i.closed <;> simp only [Bool.false_eq_true, if_false, if_true, Bool.and_eq_true,
    decide_eq_true_eq] <;> grind

/-- A decimal inside rounds to the double. -/
theorem roundsTo_of_contains {c : Nat} (inside : (around m e).contains c = true) :
    RoundsTo (c / 10 ^ (around m e).places) m e := by
  have pos : (0 : ℚ) < 10 ^ (around m e).places := by positivity
  obtain ⟨⟨low, high⟩, strictly⟩ := (contains_iff _ _).mp inside
  have bottom := coefficient_div (4 * m - gapBelow m e) (e - 2)
  have top := coefficient_div (4 * m + 2) (e - 2)
  refine ⟨?_, ?_, fun odd => ?_⟩
  · rw [← bottom]
    exact (div_le_div_iff_of_pos_right pos).mpr (by exact_mod_cast low)
  · rw [← top]
    exact (div_le_div_iff_of_pos_right pos).mpr (by exact_mod_cast high)
  · have closed : (around m e).closed = false := by simp [around, odd]
    obtain ⟨low, high⟩ := strictly closed
    rw [← bottom, ← top]
    exact ⟨(div_lt_div_iff_of_pos_right pos).mpr (by exact_mod_cast low),
      (div_lt_div_iff_of_pos_right pos).mpr (by exact_mod_cast high)⟩

theorem coefficient_lt {a b : Nat} (less : a < b) (e : Int) :
    coefficient a e < coefficient b e := by
  cases e with
  | ofNat e => exact Nat.mul_lt_mul_of_pos_right less (Nat.pow_pos two_pos)
  | negSucc e => exact Nat.mul_lt_mul_of_pos_right less (Nat.pow_pos (by decide))

theorem contains_mid (canonical : Canonical m e) :
    (around m e).contains (around m e).mid = true := by
  have pos := canonical.pos
  have gap := Double.gapBelow_cases m e
  have low : (around m e).low < (around m e).mid := coefficient_lt (by
    show 4 * m - gapBelow m e < 4 * m
    omega) _
  have high : (around m e).mid < (around m e).high := coefficient_lt (by omega) _
  exact (contains_iff _ _).mpr ⟨⟨low.le, high.le⟩, fun _ => ⟨low, high⟩⟩

theorem not_contains_zero (canonical : Canonical m e) : (around m e).contains 0 = false := by
  have pos := canonical.pos
  have gap := Double.gapBelow_cases m e
  have low : 0 < (around m e).low := by
    rw [low_around]
    have above := coefficient_lt (show 0 < 4 * m - gapBelow m e by omega) (e - 2)
    omega
  rw [Bool.eq_false_iff]
  intro inside
  obtain ⟨⟨below, -⟩, -⟩ := (contains_iff _ _).mp inside
  omega

theorem contains_of_pointOn {i : Interval} {step c : Nat} (found : i.pointOn step = some c) :
    i.contains (c * step) = true := by
  unfold pointOn at found
  dsimp only at found
  split at found
  · split at found <;> cases found <;> assumption
  · cases found
    assumption
  · cases found
    assumption
  · cases found

theorem contains_coarsest {i : Interval} (mid : i.contains i.mid = true) (grid : Nat) :
    i.contains ((i.coarsest grid).1 * pow10 (i.coarsest grid).2) = true := by
  induction grid with
  | zero => simpa [coarsest, pow10] using mid
  | succ g ih =>
    rw [coarsest]
    split
    · exact contains_of_pointOn (by assumption)
    · exact ih

/-- The text is a point inside. -/
theorem exists_positional {i : Interval} (mid : i.contains i.mid = true) :
    ∃ c n k, i.contains c = true ∧ i.text = positional n k ∧
      (n : ℚ) / 10 ^ k = c / 10 ^ i.places := by
  have inside := contains_coarsest mid (digits i.high).length
  unfold text
  generalize i.coarsest (digits i.high).length = point at inside ⊢
  obtain ⟨c, grid⟩ := point
  dsimp only at inside ⊢
  split
  · rename_i coarse
    refine ⟨_, _, 0, inside, rfl, ?_⟩
    rw [Nat.cast_mul, Nat.cast_mul, cast_pow10, cast_pow10, pow_zero, div_one,
      pow_sub₀ _ (by norm_num) coarse, mul_div_assoc, div_eq_mul_inv]
  · rename_i fine
    refine ⟨_, _, _, inside, rfl, ?_⟩
    rw [Nat.cast_mul, cast_pow10, div_eq_div_iff (by positivity) (by positivity), mul_assoc,
      ← pow_add]
    congr 2
    omega

/-- The text is a decimal that rounds to the double. -/
theorem text_around (canonical : Canonical m e) :
    ∃ n k, (around m e).text = positional n k ∧ 0 < n ∧ RoundsTo (n / 10 ^ k) m e := by
  obtain ⟨c, n, k, inside, text, value⟩ := exists_positional (contains_mid canonical)
  refine ⟨n, k, text, ?_, value ▸ roundsTo_of_contains inside⟩
  rcases Nat.eq_zero_or_pos n with rfl | some
  · rw [Nat.cast_zero, zero_div, eq_comm, div_eq_zero_iff, Nat.cast_eq_zero] at value
    rw [value.resolve_right (by positivity), not_contains_zero canonical] at inside
    cases inside
  · exact some

end

end Interval

/-! ### Digits -/

theorem digitsValue_eq (ds : List Char) : digitsValue ds = Nat.ofDigitChars 10 ds 0 := rfl

theorem isDigit_of_mem_digits {n : Nat} {c : Char} (h : c ∈ digits n) : c.isDigit = true :=
  Nat.isDigit_of_mem_toDigits (by decide) (by decide) h

theorem digits_ne_nil (n : Nat) : digits n ≠ [] := Nat.toDigits_ne_nil

/-- The places behind the point. -/
def fraction (n k : Nat) : List Char :=
  if k = 0 then [] else (digits (n % pow10 k)).leftpad k '0'

/-- A point and the places behind it, or nothing. -/
def pointed : List Char → List Char
  | [] => []
  | ds => '.' :: ds

theorem length_fraction (n k : Nat) : (fraction n k).length = k := by
  unfold fraction
  split
  · rename_i none
    rw [none]
    rfl
  · rename_i some
    have less : n % pow10 k < 10 ^ k := Nat.mod_lt _ (Nat.pow_pos (by decide))
    have fits : (digits (n % pow10 k)).length ≤ k :=
      (Nat.length_toDigits_le_iff (by decide) (Nat.pos_of_ne_zero some)).mpr less
    rw [List.length_leftpad]
    omega

theorem positional_eq (n k : Nat) :
    positional n k = digits (n / pow10 k) ++ pointed (fraction n k) := by
  have length := length_fraction n k
  unfold positional
  congr 1
  split
  · rename_i none
    rw [List.eq_nil_of_length_eq_zero (length.trans none)]
    rfl
  · rename_i some
    have is : fraction n k = (digits (n % pow10 k)).leftpad k '0' := if_neg some
    rw [← is]
    cases all : fraction n k with
    | nil => exact absurd (by rw [← length, all]; rfl) some
    | cons d ds => rfl

theorem isDigit_of_mem_fraction {n k : Nat} {c : Char} (h : c ∈ fraction n k) :
    c.isDigit = true := by
  unfold fraction at h
  split at h
  · cases h
  · rw [List.leftpad, List.mem_append] at h
    rcases h with zero | digit
    · rw [List.eq_of_mem_replicate zero]
      rfl
    · exact isDigit_of_mem_digits digit

/-- The digits in front of the point and behind it are those of the integer. -/
theorem digitsValue_positional (n k : Nat) :
    digitsValue (digits (n / pow10 k) ++ fraction n k) = n := by
  have parted := Nat.div_add_mod n (pow10 k)
  have behind : Nat.ofDigitChars 10 (fraction n k) 0 = n % pow10 k := by
    unfold fraction
    split
    · rename_i none
      rw [none]
      exact (Nat.mod_one n).symm
    · rw [List.leftpad, Nat.ofDigitChars_append, Nat.ofDigitChars_replicate_zero, mul_zero]
      exact Nat.ofDigitChars_ten_toDigits
  rw [digitsValue_eq, Nat.ofDigitChars_append, Nat.ofDigitChars_eq_ofDigitChars_zero,
    length_fraction, behind, digits, Nat.ofDigitChars_ten_toDigits]
  exact parted

theorem ofDigits_positional (n k : Nat) :
    Numeral.ofDigits (digits (n / pow10 k)) (fraction n k) =
      { mantissa := n, exponent := -(k : Int) } := by
  rw [Numeral.ofDigits, digitsValue_positional, length_fraction]

/-! ### Reading digits -/

/-- The text does not go on with a digit or a point. -/
def Stops (rest : List Char) : Prop := ∀ c ∈ rest.head?, c.isDigit = false ∧ c ≠ '.'

theorem stops_nil : Stops [] := by
  intro c none
  cases none

theorem cut_digits {ds rest : List Char} (all : ∀ c ∈ ds, c.isDigit = true)
    (stops : ∀ c ∈ rest.head?, c.isDigit = false) :
    (ds ++ rest).takeWhile Char.isDigit = ds ∧ (ds ++ rest).dropWhile Char.isDigit = rest := by
  rw [List.takeWhile_append_of_pos all, List.dropWhile_append_of_pos all]
  cases rest with
  | nil => exact ⟨List.append_nil ds, rfl⟩
  | cons c rest =>
    have stop : ¬ c.isDigit = true := by simp [stops c rfl]
    rw [List.takeWhile_cons_of_neg stop, List.dropWhile_cons_of_neg stop, List.append_nil]
    exact ⟨rfl, rfl⟩

section
variable {whole places rest : List Char}

theorem cut_whole (places : List Char) (all : ∀ c ∈ whole, c.isDigit = true) (stops : Stops rest) :
    (whole ++ (pointed places ++ rest)).takeWhile Char.isDigit = whole ∧
      (whole ++ (pointed places ++ rest)).dropWhile Char.isDigit = pointed places ++ rest := by
  refine cut_digits all fun c first => ?_
  cases places with
  | nil => exact (stops c first).1
  | cons d ds =>
    cases first
    rfl

theorem readMagnitude_digits (some : whole ≠ []) (all : ∀ c ∈ whole, c.isDigit = true)
    (all' : ∀ c ∈ places, c.isDigit = true) (stops : Stops rest) :
    Numeral.readMagnitude (whole ++ (pointed places ++ rest)) =
      .some (Numeral.ofDigits whole places, rest) := by
  obtain ⟨before, behind⟩ := cut_whole places all stops
  unfold Numeral.readMagnitude
  rw [before, behind]
  dsimp only
  cases places with
  | nil =>
    rw [pointed, List.nil_append]
    split
    · exact absurd rfl (stops '.' rfl).2
    · rw [if_neg some]
  | cons d ds =>
    obtain ⟨digit, others⟩ := List.forall_mem_cons.mp all'
    obtain ⟨taken, left⟩ := cut_digits others fun c first => (stops c first).1
    simp only [pointed, List.cons_append, digit, if_true, taken, left]

theorem readSign_signed (negative : Bool) {d : Char} (digit : d.isDigit = true)
    (ds : List Char) : readSign (signed negative (d :: ds)) = (negative, d :: ds) := by
  cases negative with
  | true => rfl
  | false =>
    unfold signed readSign
    split <;> simp_all

theorem ofText?_digits (negative : Bool) (some : whole ≠ [])
    (all : ∀ c ∈ whole, c.isDigit = true) (all' : ∀ c ∈ places, c.isDigit = true) :
    Numeral.ofText? (signed negative (whole ++ pointed places)) =
      .some { Numeral.ofDigits whole places with negative } := by
  obtain ⟨before, behind⟩ := cut_whole places all stops_nil
  rw [List.append_nil] at before behind
  have unsigned : readSign (signed negative (whole ++ pointed places)) =
      (negative, whole ++ pointed places) := by
    obtain ⟨d, ds, rfl⟩ := List.exists_cons_of_ne_nil some
    exact readSign_signed negative (all d List.mem_cons_self) _
  unfold Numeral.ofText?
  rw [unsigned]
  dsimp only
  rw [before, behind]
  cases places with
  | nil =>
    rw [if_neg fun none => some none.1]
    simp [pointed, Numeral.readExponent]
  | cons d ds =>
    obtain ⟨taken, left⟩ := cut_digits all' fun c first => (stops_nil c first).1
    rw [List.append_nil] at taken left
    simp only [pointed, taken, left]
    rw [if_neg fun none => some none.1]
    simp [Numeral.readExponent]

theorem readMagnitude_positional (n k : Nat) (stops : Stops rest) :
    Numeral.readMagnitude (positional n k ++ rest) =
      .some ({ mantissa := n, exponent := -(k : Int) }, rest) := by
  rw [positional_eq, List.append_assoc, readMagnitude_digits (digits_ne_nil _)
    (fun _ => isDigit_of_mem_digits) (fun _ => isDigit_of_mem_fraction) stops, ofDigits_positional]

theorem ofText?_positional (negative : Bool) (n k : Nat) :
    Numeral.ofText? (signed negative (positional n k)) =
      .some { negative, mantissa := n, exponent := -(k : Int) } := by
  rw [positional_eq, ofText?_digits negative (digits_ne_nil _)
    (fun _ => isDigit_of_mem_digits) (fun _ => isDigit_of_mem_fraction), ofDigits_positional]

end

theorem exists_cons_positional (n k : Nat) (rest : List Char) :
    ∃ d ds, positional n k ++ rest = d :: ds ∧ d.isDigit = true := by
  obtain ⟨d, ds, first⟩ := List.exists_cons_of_ne_nil (digits_ne_nil (n / pow10 k))
  have mem : d ∈ digits (n / pow10 k) := first ▸ List.mem_cons_self
  refine ⟨d, ds ++ (pointed (fraction n k) ++ rest), ?_, isDigit_of_mem_digits mem⟩
  rw [positional_eq, first, List.append_assoc]
  rfl

/-! ### Doubles -/

/-- The double is the other one, which is not negative, with a sign. -/
def IsSigned (x : Float) (negative : Bool) (y : Float) : Prop :=
  IsZero x negative ∧ IsZero y false ∨ ∃ m e, Denotes x negative m e ∧ Denotes y false m e

/-- The doubles are equal as numbers, as the two zeros are. -/
def Alike (x y : Float) : Prop :=
  (∃ n n', IsZero x n ∧ IsZero y n') ∨ ∃ n m e, Denotes x n m e ∧ Denotes y n m e

section
variable {x y : Float} {negative : Bool}

theorem Alike.beq (h : Alike x y) : (x == y) = true := by
  rcases h with ⟨n, n', hx, hy⟩ | ⟨n, m, e, hx, hy⟩
  · exact hx.beq hy
  · exact hx.beq hy

theorem Alike.isFinite (h : Alike x y) : x.isFinite = true := by
  rcases h with ⟨n, n', hx, hy⟩ | ⟨n, m, e, hx, hy⟩
  · exact hx.isFinite
  · exact hx.isFinite

theorem shortest_of_denotes {m : Nat} {e : Int} (h : Denotes x negative m e) :
    shortest x = signed negative (Interval.around m e).text := by
  obtain ⟨m, rfl⟩ := Nat.exists_eq_add_of_lt h.canonical.pos
  rw [shortest, Double.parts_of_denotes h]
  simp only [Nat.zero_add]

theorem shortest_of_isZero (h : IsZero x negative) :
    shortest x = signed negative (positional 0 0) := by
  rw [shortest, Double.parts_of_isZero h]
  rfl

/-- What is written of a finite double is a decimal that reads as its magnitude. -/
theorem exists_shortest (finite : x.isFinite = true) :
    ∃ negative n k, shortest x = signed negative (positional n k) ∧
      shortest x.abs = positional n k ∧
      IsSigned x negative (Scalar.ofDecimal n (-(k : Int))) := by
  rcases Double.cases_of_isFinite finite with ⟨negative, zero, -⟩ | ⟨negative, m, e, denotes, -⟩
  · exact ⟨negative, 0, 0, shortest_of_isZero zero, shortest_of_isZero zero.abs,
      Or.inl ⟨zero, Double.isZero_ofDecimal _⟩⟩
  · obtain ⟨n, k, text, pos, rounds⟩ := Interval.text_around denotes.canonical
    have decimal : (n : ℚ) / 10 ^ k = n * 10 ^ (-(k : Int)) := by
      rw [zpow_neg, zpow_natCast, div_eq_mul_inv]
    refine ⟨negative, n, k, ?_, ?_,
      Or.inr ⟨m, e, denotes, Double.denotes_ofDecimal pos (decimal ▸ rounds) denotes.canonical⟩⟩
    · rw [shortest_of_denotes denotes, text]
    · rw [shortest_of_denotes denotes.abs, text]
      rfl

theorem IsSigned.alike (h : IsSigned x negative y) : Alike (if negative then -y else y) x := by
  rcases h with ⟨hx, hy⟩ | ⟨m, e, hx, hy⟩
  · cases negative
    · exact Or.inl ⟨_, _, hy, hx⟩
    · exact Or.inl ⟨_, _, hy.neg, hx⟩
  · cases negative
    · exact Or.inr ⟨_, m, e, hy, hx⟩
    · exact Or.inr ⟨_, m, e, hy.neg, hx⟩

/-- A double is its magnitude times one, or minus one if it is less than zero. -/
theorem IsSigned.alike_mul (h : IsSigned x negative y) :
    Alike ((if x < 0 then -1 else 1) * y) x := by
  rcases h with ⟨hx, hy⟩ | ⟨m, e, hx, hy⟩
  · rw [if_neg hx.not_lt_zero]
    exact Or.inl ⟨_, _, Double.denotes_one.mul_zero hy, hx⟩
  · cases negative
    · rw [if_neg (by rw [hx.lt_zero_iff]; decide)]
      exact Or.inr ⟨_, m, e, Double.denotes_one.unit_mul hy, hx⟩
    · rw [if_pos (hx.lt_zero_iff.mpr rfl)]
      exact Or.inr ⟨_, m, e, Double.denotes_one.neg.unit_mul hy, hx⟩

/-- What is written of a finite double reads back as the double. -/
theorem ofText?_shortest (finite : x.isFinite = true) :
    ∃ n : Numeral, Numeral.ofText? (shortest x) = some n ∧ Alike n.toScalar x := by
  obtain ⟨negative, n, k, text, -, is⟩ := exists_shortest finite
  refine ⟨{ negative, mantissa := n, exponent := -(k : Int) }, ?_, is.alike⟩
  rw [text, ofText?_positional]

end

end Simplex.Decimal
