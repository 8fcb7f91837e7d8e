import Simplex.Proofs.WrittenTerms

/-!
# The grammar of constraints

A written number is a decimal with a sign and a power of ten (`ofText?_iff`). Neither terms nor
numbers contain a character of a comparison sign, and blanks are none, so a text has at most one cut
into terms, a comparison sign and a number, and the reader, which looks for the signs before it
knows what stands beside them, finds it (`constraint_of_text`).
-/

namespace Simplex

open Decimal (readSign Numeral)
open Text (Inert Unmarked)

/-! ### Numbers -/

/-- A power of ten as it is written: `e|E [+|-] digits`. -/
structure WrittenExponent where
  mark : Char
  sign : SignMark
  digits : List Char
  mark_eq : mark = 'e' ∨ mark = 'E'
  digits_ne_nil : digits ≠ []
  digits_isDigit : ∀ d ∈ digits, d.isDigit = true

namespace WrittenExponent

def text (e : WrittenExponent) : List Char := e.mark :: (e.sign.text ++ e.digits)

def value (e : WrittenExponent) : Int :=
  if e.sign.negative then -(Nat.ofDigitChars 10 e.digits 0 : Int)
  else Nat.ofDigitChars 10 e.digits 0

end WrittenExponent

/-- A number as it is written: a sign, digits with a point among them or at either end, and a power
of ten. -/
structure WrittenNumber where
  sign : SignMark
  mantissa : Mantissa
  exponent : Option WrittenExponent

namespace WrittenNumber

def exponentText (w : WrittenNumber) : List Char := w.exponent.elim [] WrittenExponent.text

def text (w : WrittenNumber) : List Char := w.sign.text ++ (w.mantissa.text ++ w.exponentText)

def power (w : WrittenNumber) : Int := w.exponent.elim 0 WrittenExponent.value

/-- The number without its sign. -/
def magnitude (w : WrittenNumber) : ℚ := w.mantissa.value * 10 ^ w.power

def numeral (w : WrittenNumber) : Numeral where
  negative := w.sign.negative
  mantissa := w.mantissa.numeral.mantissa
  exponent := w.mantissa.numeral.exponent + w.power

end WrittenNumber

theorem readExponent_text (x : Option WrittenExponent) :
    Numeral.readExponent (x.elim [] WrittenExponent.text) =
      some (x.elim 0 WrittenExponent.value) := by
  cases x with
  | none => rfl
  | some e =>
    have unsigned := unsigned_of_digits e.digits_isDigit
    have valid : e.digits ≠ [] ∧ e.digits.all Char.isDigit = true :=
      ⟨e.digits_ne_nil, List.all_eq_true.mpr e.digits_isDigit⟩
    show Numeral.readExponent (e.mark :: (e.sign.text ++ e.digits)) = some e.value
    rw [Numeral.readExponent, if_pos e.mark_eq, readSign_text e.sign unsigned]
    dsimp only
    rw [if_pos valid, Decimal.digitsValue_eq, WrittenExponent.value]

theorem exists_exponent {text : List Char} {power : Int}
    (h : Numeral.readExponent text = some power) : ∃ x : Option WrittenExponent,
      text = x.elim [] WrittenExponent.text ∧ power = x.elim 0 WrittenExponent.value := by
  unfold Numeral.readExponent at h
  split at h
  · cases h
    exact ⟨none, rfl, rfl⟩
  · rename_i c text
    obtain ⟨s, signed, negative⟩ := exists_readSign text
    generalize readSign text = parted at signed negative h
    obtain ⟨_, ds⟩ := parted
    dsimp only at signed negative h
    subst signed negative
    split at h
    · rename_i mark
      split at h
      · rename_i valid
        cases h
        exact ⟨some ⟨c, s, ds, mark, valid.1, List.all_eq_true.mp valid.2⟩, rfl, rfl⟩
      · cases h
    · cases h

/-- A mark of an exponent is no digit and no point. -/
theorem WrittenNumber.stops_exponentText (w : WrittenNumber) : Decimal.Stops w.exponentText := by
  unfold WrittenNumber.exponentText
  cases w.exponent with
  | none => exact Decimal.stops_nil
  | some e =>
    rintro c ⟨⟩
    rcases e.mark_eq with is | is <;> rw [is] <;> decide

theorem ofText?_text (w : WrittenNumber) : Numeral.ofText? w.text = some w.numeral := by
  have breaks : Breaks w.exponentText := fun c first => (w.stops_exponentText c first).1
  obtain ⟨before, behind⟩ := cut_mantissa w.mantissa breaks
  have power : Numeral.readExponent w.exponentText = some w.power := readExponent_text w.exponent
  have places : w.mantissa.places = w.mantissa.fraction.getD [] := rfl
  unfold Numeral.ofText?
  rw [WrittenNumber.text, readSign_text w.sign (w.mantissa.unsigned _)]
  dsimp only
  rw [before, behind, Mantissa.pointedText]
  cases fraction : w.mantissa.fraction with
  | none =>
    have whole := w.mantissa.present.resolve_right (by simp [fraction])
    rw [Option.elim_none, List.nil_append]
    split
    · rename_i tail stop
      exact absurd rfl (w.stops_exponentText '.' (by rw [stop]; rfl)).2
    · rename_i rest stop
      rw [if_neg fun none => whole none.1]
      dsimp only
      rw [power, Option.map_some, WrittenNumber.numeral, Mantissa.numeral, places, fraction]
      rfl
  | some ds =>
    obtain ⟨taken, left⟩ := Decimal.cut_digits (w.mantissa.fraction_digits ds fraction) breaks
    have present : ¬ (w.mantissa.whole = [] ∧ ds = []) := by
      rintro ⟨whole, none⟩
      obtain ⟨ds', is, some⟩ := w.mantissa.present.resolve_left fun some => some whole
      exact some ((Option.some.inj (is.symm.trans fraction)).trans none)
    simp only [Option.elim_some, List.cons_append, taken, left]
    rw [if_neg present, power, Option.map_some, WrittenNumber.numeral, Mantissa.numeral, places,
      fraction]
    rfl

theorem exists_writtenNumber {text : List Char} {n : Numeral}
    (h : Numeral.ofText? text = some n) : ∃ w : WrittenNumber, text = w.text ∧ n = w.numeral := by
  obtain ⟨s, signed, negative⟩ := exists_readSign text
  unfold Numeral.ofText? at h
  generalize readSign text = parted at signed negative h
  obtain ⟨_, unsigned⟩ := parted
  dsimp only at signed negative h
  subst signed negative
  have whole := takeWhile_digits unsigned
  have parted := List.takeWhile_append_dropWhile (p := Char.isDigit) (l := unsigned)
  -- A mantissa with an exponent behind it, whether or not there is a point.
  have close : ∀ (m : Mantissa) (rest : List Char), unsigned = m.text ++ rest →
      (Numeral.readExponent rest).map (fun e => { m.numeral with
        negative := s.negative, exponent := m.numeral.exponent + e }) = some n →
      ∃ w : WrittenNumber, s.text ++ unsigned = w.text ∧ n = w.numeral := by
    intro m rest text read
    obtain ⟨power, exponent, rfl⟩ := Option.map_eq_some_iff.mp read
    obtain ⟨x, rfl, rfl⟩ := exists_exponent exponent
    exact ⟨⟨s, m, x⟩, by rw [text]; rfl, rfl⟩
  split at h
  · rename_i tail point
    dsimp only at h
    split at h
    · cases h
    · rename_i present
      refine close ⟨unsigned.takeWhile Char.isDigit, some (tail.takeWhile Char.isDigit), whole,
        ?_, ?_⟩ _ ?_ h
      · rintro _ ⟨⟩
        exact takeWhile_digits tail
      · exact (not_and_or.mp present).imp_right fun some => ⟨_, rfl, some⟩
      · conv_lhs => rw [← parted, point]
        simp [Mantissa.text, Mantissa.pointedText]
  · dsimp only at h
    split at h
    · cases h
    · rename_i present
      refine close ⟨unsigned.takeWhile Char.isDigit, none, whole, by simp,
        Or.inl fun none => present ⟨none, rfl⟩⟩ _ ?_ h
      rw [Mantissa.text, Mantissa.pointedText, Option.elim_none, List.append_nil, parted]

/-- A numeral is read from the texts of written numbers and from no others. -/
theorem ofText?_iff {text : List Char} {n : Numeral} :
    Numeral.ofText? text = some n ↔ ∃ w : WrittenNumber, text = w.text ∧ n = w.numeral := by
  constructor
  · exact exists_writtenNumber
  · rintro ⟨w, rfl, rfl⟩
    exact ofText?_text w

theorem readBound_iff {α : Type} [Scalar α] {text : List Char} {b : α} : readBound text = some b ↔
    ∃ w : WrittenNumber, text = w.text ∧ b = w.numeral.toScalar ∧ Scalar.isFinite b = true := by
  simp only [readBound, Option.filter_eq_some_iff, Option.map_eq_some_iff, ofText?_iff]
  constructor
  · rintro ⟨⟨n, ⟨w, rfl, rfl⟩, rfl⟩, finite⟩
    exact ⟨w, rfl, rfl, finite⟩
  · rintro ⟨w, rfl, rfl, finite⟩
    exact ⟨⟨_, ⟨w, rfl, rfl⟩, rfl⟩, finite⟩

/-! ### Numbers over doubles -/

/-- The double nearest to the number without its sign, with the sign. -/
def WrittenNumber.Reads (w : WrittenNumber) (x : Float) : Prop :=
  ∃ magnitude, Double.IsNearest w.magnitude magnitude ∧
    x = if w.sign = .minus then -magnitude else magnitude

theorem WrittenNumber.reads_toScalar (w : WrittenNumber) : w.Reads w.numeral.toScalar := by
  refine ⟨Scalar.ofDecimal w.numeral.mantissa w.numeral.exponent, ?_, ?_⟩
  · have value : w.magnitude = w.numeral.mantissa * 10 ^ w.numeral.exponent := by
      rw [magnitude, w.mantissa.value_eq, mul_assoc, ← zpow_add₀ (by norm_num)]
      rfl
    rw [value]
    exact Double.isNearest_ofDecimal _ _
  · have signed : (w.numeral.negative = true) = (w.sign = .minus) := by
      rw [numeral]
      cases w.sign <;> simp [SignMark.negative]
    rw [Numeral.toScalar]
    simp only [signed]

/-- Whether the double of a number is finite does not depend on how it is found. -/
theorem WrittenNumber.Reads.isFinite_iff {w : WrittenNumber} {x : Float} (h : w.Reads x) :
    x.isFinite = true ↔ w.magnitude < Double.tooLarge := by
  obtain ⟨magnitude, nearest, rfl⟩ := h
  rw [← nearest.finite_iff]
  split
  · exact Double.isFinite_neg_iff
  · exact Iff.rfl

/-! ### Texts without marks -/

theorem inert_signText (s : SignMark) : Inert s.text := by
  cases s with
  | absent => exact Text.inert_nil
  | plus => exact Inert.cons rfl Text.inert_nil
  | minus => exact Inert.cons rfl Text.inert_nil

theorem Mantissa.inert (m : Mantissa) : Inert m.text := by
  refine (Inert.of_digits m.whole_digits).append ?_
  unfold Mantissa.pointedText
  cases fraction : m.fraction with
  | none => exact Text.inert_nil
  | some ds => exact Inert.cons rfl (Inert.of_digits (m.fraction_digits ds fraction))

theorem WrittenTerm.inert (w : WrittenTerm) : Inert w.text := by
  refine (inert_signText w.sign).append (Inert.append ?_
    (Inert.cons (Text.isInert_of_isAlpha w.letter_isAlpha) (Inert.of_digits w.index_digits)))
  unfold WrittenTerm.magnitudeText
  cases w.magnitude with
  | none => exact Text.inert_nil
  | some m => exact m.inert

theorem inert_writtenSum (ws : List WrittenTerm) : Inert (writtenSum ws) := by
  intro c mem
  obtain ⟨w, -, within⟩ := List.mem_flatMap.mp mem
  exact w.inert c within

theorem WrittenNumber.inert (w : WrittenNumber) : Inert w.text := by
  refine (inert_signText w.sign).append (w.mantissa.inert.append ?_)
  unfold WrittenNumber.exponentText
  cases w.exponent with
  | none => exact Text.inert_nil
  | some e =>
    have mark : Text.isInert e.mark = true := by
      rcases e.mark_eq with is | is <;> rw [is] <;> decide
    exact Inert.cons mark ((inert_signText e.sign).append (Inert.of_digits e.digits_isDigit))

/-! ### Constraints -/

/-- The text is cut into terms, a comparison sign and a number of which the double is finite, with
blanks around the terms and around the number. -/
structure IsSplit (text left : List Char) (relation : Relation) (right : List Char) : Prop where
  parted : text = left ++ (relation.sign ++ right)
  terms : ∃ ws : List WrittenTerm, ws ≠ [] ∧ Text.trim left = writtenSum ws
  number : ∃ (w : WrittenNumber) (x : Float),
    Text.trim right = w.text ∧ w.Reads x ∧ x.isFinite = true

theorem IsSplit.splitRelation {text left right : List Char} {relation : Relation}
    (h : IsSplit text left relation right) :
    splitRelation text = some (left, relation, right) := by
  obtain ⟨rfl, ⟨ws, -, terms⟩, w, x, number, -⟩ := h
  have before : Unmarked left := Text.unmarked_of_trim (terms ▸ (inert_writtenSum ws).unmarked)
  have behind : Unmarked right := Text.unmarked_of_trim (number ▸ w.inert.unmarked)
  exact splitRelation_append before behind relation

theorem eq_of_splitRelation {text left right : List Char} {relation : Relation}
    (h : splitRelation text = some (left, relation, right)) :
    text = left ++ (relation.sign ++ right) := by
  obtain ⟨relation', -, cut⟩ := List.exists_of_findSome?_eq_some h
  obtain ⟨⟨left', right'⟩, found, same⟩ := Option.map_eq_some_iff.mp cut
  obtain ⟨rfl, rfl, rfl⟩ : left' = left ∧ relation' = relation ∧ right' = right := by
    simpa using same
  rw [Text.eq_of_splitOnce found, List.append_assoc]

theorem readConstraint_iff {text : List Char} {c : Constraint Float} :
    readConstraint text = .ok c ↔ ∃ left right, IsSplit text left c.relation right ∧
      readTerms (Text.trim left) = .ok c.terms ∧
      readBound (Text.trim right) = some c.bound := by
  constructor
  · intro h
    unfold readConstraint at h
    split at h
    · cases h
    · rename_i left relation right cut
      split at h
      · cases h
      · split at h
        · cases h
        · rename_i bound number
          split at h
          · cases h
          · rename_i terms read
            cases h
            obtain ⟨ws, some, -, written, -⟩ := readTerms_iff.mp read
            obtain ⟨w, text, rfl, finite⟩ := readBound_iff.mp number
            exact ⟨left, right, ⟨eq_of_splitRelation cut, ⟨ws, some, written⟩,
              w, _, text, w.reads_toScalar, finite⟩, read, number⟩
  · rintro ⟨left, right, split, read, number⟩
    have present : Text.trim left ≠ [] := by
      obtain ⟨ws, some, written⟩ := split.terms
      rw [written]
      exact mt writtenSum_eq_nil.mp some
    rw [readConstraint, split.splitRelation]
    dsimp only
    rw [if_neg present, number]
    dsimp only
    rw [read]

/-- A text reads as a constraint if and only if it can be cut into terms, a comparison sign and a
number of which the double is finite. There is at most one such cut, and the constraint has its
terms, its relation and its number. Every fault carries the position that the reader was given. -/
theorem constraint_of_text (position : Nat) (text : String) :
    ((∃ c : Constraint Float, Constraint.ofText position text = .ok c) ↔
      ∃ left relation right, IsSplit text.toList left relation right) ∧
    (∀ left relation right left' relation' right', IsSplit text.toList left relation right →
      IsSplit text.toList left' relation' right' →
        left' = left ∧ relation' = relation ∧ right' = right) ∧
    (∀ c : Constraint Float, Constraint.ofText position text = .ok c →
      ∃ left right, IsSplit text.toList left c.relation right ∧
        Term.listOfText (String.ofList (Text.trim left)) = .ok c.terms ∧
        ∀ w : WrittenNumber, Text.trim right = w.text → w.Reads c.bound) ∧
    ∀ fault : Fault Float, Constraint.ofText position text = .error fault →
      ∃ cause, fault = .unreadable (some position) cause := by
  refine ⟨⟨?_, ?_⟩, ?_, ?_, ?_⟩
  · rintro ⟨c, read⟩
    obtain ⟨left, right, split, -⟩ := readConstraint_iff.mp (mapError_eq_ok_iff.mp read)
    exact ⟨left, c.relation, right, split⟩
  · rintro ⟨left, relation, right, split⟩
    obtain ⟨terms, read⟩ := (exists_readTerms_iff (α := Float) _).mpr split.terms
    obtain ⟨w, x, text, reads, finite⟩ := split.number
    have finite : Scalar.isFinite (w.numeral.toScalar : Float) = true :=
      w.reads_toScalar.isFinite_iff.mpr (reads.isFinite_iff.mp finite)
    have number := readBound_iff.mpr ⟨w, text, rfl, finite⟩
    exact ⟨{ terms, relation, bound := w.numeral.toScalar },
      mapError_eq_ok_iff.mpr (readConstraint_iff.mpr ⟨left, right, split, read, number⟩)⟩
  · intro left relation right left' relation' right' split split'
    have same := split'.splitRelation.symm.trans split.splitRelation
    simpa using same
  · intro c read
    obtain ⟨left, right, split, terms, number⟩ :=
      readConstraint_iff.mp (mapError_eq_ok_iff.mp read)
    refine ⟨left, right, split, mapError_eq_ok_iff.mpr ?_, fun w' text' => ?_⟩
    · rwa [String.toList_ofList]
    · obtain ⟨w, text, bound, -⟩ := readBound_iff.mp number
      have same : w'.numeral = w.numeral := by
        have read := ofText?_text w
        rw [← text, text', ofText?_text w'] at read
        exact Option.some.inj read
      rw [bound, ← same]
      exact w'.reads_toScalar
  · intro fault failed
    rw [Constraint.ofText] at failed
    cases read : readConstraint (α := Float) text.toList with
    | ok c =>
      rw [read] at failed
      cases failed
    | error cause =>
      rw [read] at failed
      exact ⟨cause, (Except.error.inj failed).symm⟩

theorem constraint_of_text_blanks : ∃ (c : Constraint Float) (magnitude : Float),
    Constraint.ofText 3 "2x-.5y <= -1.5E1" = .ok c ∧ c.relation = .atMost ∧
      Term.listOfText "2x-.5y" = .ok c.terms ∧
      Double.IsNearest 15 magnitude ∧ c.bound = -magnitude := by
  let x : WrittenTerm := ⟨.absent, some ⟨['2'], none, by simp, by simp, Or.inl (by decide)⟩, 'x', [],
    by decide, rfl, by simp⟩
  let y : WrittenTerm := ⟨.minus, some ⟨[], some ['5'], by simp, by simp, Or.inr ⟨_, rfl, by decide⟩⟩,
    'y', [], by decide, rfl, by simp⟩
  let w : WrittenNumber := ⟨.minus, ⟨['1'], some ['5'], by simp, by simp, Or.inl (by decide)⟩,
    some ⟨'E', .absent, ['1'], Or.inr rfl, by decide, by simp⟩⟩
  have value : w.magnitude = 15 := by
    show ((15 : Nat) : ℚ) / 10 ^ 1 * 10 ^ (1 : Int) = 15
    norm_num
  have small : w.magnitude < Double.tooLarge := calc w.magnitude
    _ = 15 := value
    _ < (4 * Decimal.leastNormal - 1 : Nat) := by norm_num [Decimal.leastNormal]
    _ ≤ Double.tooLarge :=
      le_mul_of_one_le_right (Nat.cast_nonneg _) (one_le_zpow₀ one_le_two (by decide))
  have split : IsSplit "2x-.5y <= -1.5E1".toList "2x-.5y ".toList .atMost " -1.5E1".toList :=
    ⟨by decide, ⟨[x, y], by decide, by decide⟩, w, _, by decide, w.reads_toScalar,
      w.reads_toScalar.isFinite_iff.mpr small⟩
  obtain ⟨accepts, unique, reads, -⟩ := constraint_of_text 3 "2x-.5y <= -1.5E1"
  obtain ⟨c, read⟩ := accepts.mpr ⟨_, _, _, split⟩
  obtain ⟨left, right, split', terms, number⟩ := reads c read
  obtain ⟨rfl, relation, rfl⟩ := unique _ _ _ _ _ _ split split'
  obtain ⟨magnitude, nearest, bound⟩ := number w (by decide)
  exact ⟨c, magnitude, read, relation, terms, value ▸ nearest, bound⟩

end Simplex
