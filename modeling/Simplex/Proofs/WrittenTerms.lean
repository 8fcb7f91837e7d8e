import Simplex.Proofs.DecimalDoubles
import Simplex.Proofs.Rereading

/-!
# The grammar of terms

A written term is a sign, a magnitude and a variable, as they stand in the text. The reader takes
the longest term that begins a text (`readTerm_iff`), so the terms that it reads are written terms
of which no later one begins with a digit. Written terms can always be regrouped in this way, since
the digits that begin one may as well end the variable before it (`exists_greedy`), and in one way
only (`greedy_unique`). So a text is read if and only if it is a sequence of written terms
(`terms_of_text`).
-/

namespace Simplex

open Decimal (readSign Numeral Stops)

/-! ### Signs -/

/-- The sign in front of a number, if there is one. -/
inductive SignMark where
  | absent
  | plus
  | minus
  deriving DecidableEq

namespace SignMark

def text : SignMark → List Char
  | absent => []
  | plus => ['+']
  | minus => ['-']

def negative : SignMark → Bool
  | minus => true
  | _ => false

end SignMark

/-- The text does not begin with a sign. -/
def Unsigned (text : List Char) : Prop := ∀ c ∈ text.head?, c ≠ '+' ∧ c ≠ '-'

section
variable {s s' : SignMark} {text text' : List Char}

theorem readSign_text (s : SignMark) (unsigned : Unsigned text) :
    readSign (s.text ++ text) = (s.negative, text) := by
  cases s with
  | absent =>
    show readSign text = (false, text)
    unfold readSign
    split
    · exact absurd rfl (unsigned '-' rfl).2
    · exact absurd rfl (unsigned '+' rfl).1
    · rfl
  | plus => rfl
  | minus => rfl

theorem exists_readSign (text : List Char) :
    ∃ s : SignMark, text = s.text ++ (readSign text).2 ∧ (readSign text).1 = s.negative := by
  unfold readSign
  split
  · exact ⟨.minus, rfl, rfl⟩
  · exact ⟨.plus, rfl, rfl⟩
  · exact ⟨.absent, rfl, rfl⟩

/-- The sign of a text is the only one it can be. -/
theorem sign_unique (unsigned : Unsigned text) (unsigned' : Unsigned text')
    (same : s.text ++ text = s'.text ++ text') : s = s' ∧ text = text' := by
  have read := readSign_text s unsigned
  rw [same, readSign_text s' unsigned'] at read
  obtain ⟨-, rfl⟩ := Prod.mk.inj read
  have same := List.append_cancel_right same
  refine ⟨?_, rfl⟩
  cases s <;> cases s' <;> first | rfl | cases same

end

/-! ### Magnitudes -/

/-- Digits, with a point and more digits if there is a fraction. There is at least one digit. -/
structure Mantissa where
  whole : List Char
  fraction : Option (List Char)
  whole_digits : ∀ d ∈ whole, d.isDigit = true
  fraction_digits : ∀ ds ∈ fraction, ∀ d ∈ ds, d.isDigit = true
  present : whole ≠ [] ∨ ∃ ds ∈ fraction, ds ≠ []

namespace Mantissa

/-- The digits behind the point. -/
def places (m : Mantissa) : List Char := m.fraction.getD []

/-- The fraction with its point. -/
def pointedText (m : Mantissa) : List Char := m.fraction.elim [] ('.' :: ·)

def text (m : Mantissa) : List Char := m.whole ++ m.pointedText

/-- The decimal number of all digits, in units of the last place. -/
def value (m : Mantissa) : ℚ := Nat.ofDigitChars 10 (m.whole ++ m.places) 0 / 10 ^ m.places.length

def numeral (m : Mantissa) : Numeral := .ofDigits m.whole m.places

theorem value_eq (m : Mantissa) : m.value = m.numeral.mantissa * 10 ^ m.numeral.exponent := by
  have mantissa : m.numeral.mantissa = Nat.ofDigitChars 10 (m.whole ++ m.places) 0 :=
    Decimal.digitsValue_eq _
  have exponent : m.numeral.exponent = -(m.places.length : Int) := rfl
  rw [value, mantissa, exponent, zpow_neg, zpow_natCast, div_eq_mul_inv]

theorem isNearest_toScalar (m : Mantissa) : Double.IsNearest m.value m.numeral.toScalar := by
  rw [value_eq]
  exact Double.isNearest_ofDecimal _ _

end Mantissa

theorem takeWhile_digits (text : List Char) :
    ∀ d ∈ text.takeWhile Char.isDigit, d.isDigit = true :=
  List.all_eq_true.mp List.all_takeWhile

/-- A text goes on with no digit. -/
def Breaks (text : List Char) : Prop := ∀ c ∈ text.head?, c.isDigit = false

theorem breaks_nil : Breaks [] := by simp [Breaks]

theorem breaks_dropWhile (text : List Char) : Breaks (text.dropWhile Char.isDigit) := by
  intro c first
  have stop := List.head?_dropWhile_not Char.isDigit text
  rwa [first] at stop

theorem breaks_pointedText_append (m : Mantissa) {rest : List Char} (breaks : Breaks rest) :
    Breaks (m.pointedText ++ rest) := by
  unfold Mantissa.pointedText
  cases m.fraction with
  | none => exact breaks
  | some ds =>
    rintro c ⟨⟩
    rfl

/-- The whole part ends where the digits do. -/
theorem cut_mantissa (m : Mantissa) {rest : List Char} (breaks : Breaks rest) :
    (m.text ++ rest).takeWhile Char.isDigit = m.whole ∧
      (m.text ++ rest).dropWhile Char.isDigit = m.pointedText ++ rest := by
  rw [Mantissa.text, List.append_assoc]
  exact Decimal.cut_digits m.whole_digits (breaks_pointedText_append m breaks)

theorem pointedText_inj {f f' : Option (List Char)}
    (same : f.elim [] ('.' :: ·) = f'.elim [] ('.' :: ·)) : f = f' := by
  cases f with
  | none =>
    cases f' with
    | none => rfl
    | some ds' => cases same
  | some ds =>
    cases f' with
    | none => cases same
    | some ds' => rw [(List.cons.inj same).2]

theorem Mantissa.text_inj {m m' : Mantissa} (same : m.text = m'.text) : m = m' := by
  obtain ⟨before, behind⟩ := cut_mantissa m breaks_nil
  obtain ⟨before', behind'⟩ := cut_mantissa m' breaks_nil
  rw [same, before'] at before
  rw [same, behind', List.append_nil, List.append_nil] at behind
  have fractions : m.fraction = m'.fraction := pointedText_inj behind.symm
  obtain ⟨whole, fraction, _, _, _⟩ := m
  obtain ⟨whole', fraction', _, _, _⟩ := m'
  obtain rfl : whole' = whole := before
  obtain rfl : fraction = fraction' := fractions
  rfl

theorem Mantissa.text_ne_nil (m : Mantissa) : m.text ≠ [] := by
  intro none
  obtain ⟨whole, pointed⟩ := List.append_eq_nil_iff.mp none
  obtain ⟨ds, fraction, -⟩ := m.present.resolve_left fun some => some whole
  rw [Mantissa.pointedText, Option.mem_def.mp fraction] at pointed
  cases pointed

theorem readMagnitude_text {m : Mantissa} (closed : m.fraction ≠ some []) {rest : List Char}
    (stops : Stops rest) : Numeral.readMagnitude (m.text ++ rest) = some (m.numeral, rest) := by
  have breaks : Breaks rest := fun c first => (stops c first).1
  obtain ⟨before, behind⟩ := cut_mantissa m breaks
  have present := m.present
  have digits := m.fraction_digits
  unfold Numeral.readMagnitude
  rw [before, behind]
  dsimp only
  rw [Mantissa.numeral, Mantissa.places, Mantissa.pointedText]
  cases is : m.fraction with
  | none =>
    have whole : m.whole ≠ [] := present.resolve_right (by simp [is])
    rw [Option.elim_none, List.nil_append]
    split
    · exact absurd rfl (stops '.' rfl).2
    · rw [if_neg whole]
      rfl
  | some ds =>
    obtain ⟨d, ds, rfl⟩ := List.exists_cons_of_ne_nil fun none => closed (none ▸ is)
    obtain ⟨digit, others⟩ := List.forall_mem_cons.mp (digits _ is)
    obtain ⟨taken, left⟩ := Decimal.cut_digits others breaks
    simp only [Option.elim_some, List.cons_append, digit, if_true, taken, left, Option.getD_some]

theorem exists_mantissa {text rest : List Char} {n : Numeral}
    (h : Numeral.readMagnitude text = some (n, rest)) :
    ∃ m : Mantissa, m.fraction ≠ some [] ∧ text = m.text ++ rest ∧ n = m.numeral := by
  have whole := takeWhile_digits text
  have parted := List.takeWhile_append_dropWhile (p := Char.isDigit) (l := text)
  -- The reader stops behind the digits in two places: where no point follows, and where no digit
  -- follows the point.
  have integral : (if text.takeWhile Char.isDigit = [] then none else
      some (Numeral.ofDigits (text.takeWhile Char.isDigit) [], text.dropWhile Char.isDigit)) =
        some (n, rest) →
      ∃ m : Mantissa, m.fraction ≠ some [] ∧ text = m.text ++ rest ∧ n = m.numeral := by
    intro read
    split at read
    · cases read
    · rename_i some
      obtain ⟨rfl, rfl⟩ := Prod.mk.inj (Option.some.inj read)
      refine ⟨⟨text.takeWhile Char.isDigit, none, whole, by simp, Or.inl some⟩, by simp, ?_, rfl⟩
      rw [Mantissa.text, Mantissa.pointedText, Option.elim_none, List.append_nil, parted]
  unfold Numeral.readMagnitude at h
  dsimp only at h
  split at h
  · rename_i d tail left
    split at h
    · rename_i digit
      obtain ⟨rfl, rfl⟩ := Prod.mk.inj (Option.some.inj h)
      refine ⟨⟨text.takeWhile Char.isDigit, some (d :: tail.takeWhile Char.isDigit), whole, ?_,
        Or.inr ⟨_, rfl, List.cons_ne_nil _ _⟩⟩, by simp, ?_, rfl⟩
      · rintro ds ⟨⟩
        exact List.forall_mem_cons.mpr ⟨digit, takeWhile_digits tail⟩
      · conv_lhs => rw [← parted, left]
        simp [Mantissa.text, Mantissa.pointedText]
    · exact integral h
  · exact integral h

theorem readMagnitude_letter {letter : Char} (alpha : letter.isAlpha = true) (tail : List Char) :
    Numeral.readMagnitude (letter :: tail) = none := by
  obtain ⟨noDigit, noPoint⟩ := Text.alpha_spec alpha
  have stop : ¬ letter.isDigit = true := by simp [noDigit]
  unfold Numeral.readMagnitude
  rw [List.takeWhile_cons_of_neg stop, List.dropWhile_cons_of_neg stop]
  dsimp only
  split
  · rename_i same
    exact absurd (List.cons.inj same).1 noPoint
  · rfl

/-! ### Terms -/

/-- A term as it is written: `[+|-] [digits[.digits] | .digits] letter digits*`. -/
structure WrittenTerm where
  sign : SignMark
  magnitude : Option Mantissa
  letter : Char
  index : List Char
  magnitude_closed : ∀ m ∈ magnitude, m.fraction ≠ some []
  letter_isAlpha : letter.isAlpha = true
  index_digits : ∀ d ∈ index, d.isDigit = true

namespace WrittenTerm

def variableText (w : WrittenTerm) : List Char := w.letter :: w.index

def magnitudeText (w : WrittenTerm) : List Char := w.magnitude.elim [] Mantissa.text

def text (w : WrittenTerm) : List Char := w.sign.text ++ (w.magnitudeText ++ w.variableText)

/-- The term that is read from the text. -/
def term [Scalar α] (w : WrittenTerm) : Term α where
  coefficient := (if w.sign.negative then -1 else 1) *
    w.magnitude.elim 1 fun m => m.numeral.toScalar
  name := String.ofList w.variableText

end WrittenTerm

theorem unsigned_of_isAlphanum {c : Char} (h : c.isAlphanum = true) : c ≠ '+' ∧ c ≠ '-' := by
  constructor
  · rintro rfl
    cases h
  · rintro rfl
    cases h

theorem unsigned_of_digits {ds : List Char} (h : ∀ d ∈ ds, d.isDigit = true) : Unsigned ds :=
  fun c first => unsigned_of_isAlphanum
    (by simp [Char.isAlphanum, h c (List.mem_of_mem_head? first)])

theorem Mantissa.unsigned (m : Mantissa) (rest : List Char) : Unsigned (m.text ++ rest) := by
  rw [Mantissa.text, List.append_assoc]
  cases is : m.whole with
  | cons d ds =>
    rintro c ⟨⟩
    exact unsigned_of_digits m.whole_digits d (by rw [is]; rfl)
  | nil =>
    obtain ⟨ds, fraction, -⟩ := m.present.resolve_left fun some => some is
    rw [Mantissa.pointedText, Option.mem_def.mp fraction]
    rintro c ⟨⟩
    decide

theorem WrittenTerm.unsigned_magnitudeText (w : WrittenTerm) : Unsigned w.magnitudeText := by
  unfold WrittenTerm.magnitudeText
  cases w.magnitude with
  | none => simp [Unsigned]
  | some m => simpa using m.unsigned []

theorem WrittenTerm.unsigned (w : WrittenTerm) (rest : List Char) :
    Unsigned (w.magnitudeText ++ w.variableText ++ rest) := by
  unfold WrittenTerm.magnitudeText
  cases w.magnitude with
  | none =>
    rintro c ⟨⟩
    exact unsigned_of_isAlphanum (by simp [Char.isAlphanum, w.letter_isAlpha])
  | some m =>
    rw [List.append_assoc]
    exact m.unsigned _

section
variable {α : Type} [Scalar α] {text rest : List Char}

theorem readCoefficient_text (w : WrittenTerm) (rest : List Char) :
    readCoefficient (w.text ++ rest) = (w.term (α := α).coefficient, w.variableText ++ rest) := by
  have signed := readSign_text w.sign (w.unsigned rest)
  rw [readCoefficient, WrittenTerm.text, List.append_assoc, signed]
  dsimp only
  rw [WrittenTerm.term, WrittenTerm.magnitudeText, List.append_assoc]
  cases is : w.magnitude with
  | none =>
    have read := readMagnitude_letter w.letter_isAlpha (w.index ++ rest)
    have text : w.variableText ++ rest = w.letter :: (w.index ++ rest) := rfl
    rw [Option.elim_none, List.nil_append, text, read]
    rfl
  | some m =>
    have read := readMagnitude_text (w.magnitude_closed m is)
      (stops_of_isAlpha w.letter_isAlpha (w.index ++ rest))
    have text : w.variableText ++ rest = w.letter :: (w.index ++ rest) := rfl
    rw [Option.elim_some, text, read]
    rfl

theorem readTerm_text (w : WrittenTerm) (breaks : Breaks rest) :
    readTerm (w.text ++ rest) = .ok (w.term (α := α), rest) := by
  obtain ⟨taken, left⟩ := Decimal.cut_digits w.index_digits breaks
  rw [readTerm, readCoefficient_text, WrittenTerm.variableText, List.cons_append]
  dsimp only
  rw [if_pos w.letter_isAlpha, taken, left]
  rfl

theorem exists_readCoefficient {c : α} (h : readCoefficient text = (c, rest)) :
    ∃ (s : SignMark) (magnitude : Option Mantissa), (∀ m ∈ magnitude, m.fraction ≠ some []) ∧
      text = s.text ++ (magnitude.elim [] Mantissa.text ++ rest) ∧
      c = (if s.negative then -1 else 1) * magnitude.elim 1 fun m => m.numeral.toScalar := by
  obtain ⟨s, signed, negative⟩ := exists_readSign text
  unfold readCoefficient at h
  generalize readSign text = parted at signed negative h
  obtain ⟨_, unsigned⟩ := parted
  dsimp only at signed negative h
  subst signed negative
  split at h
  · rename_i numeral rest' read
    obtain ⟨rfl, rfl⟩ := Prod.mk.inj h
    obtain ⟨m, closed, rfl, rfl⟩ := exists_mantissa read
    refine ⟨s, some m, ?_, rfl, rfl⟩
    rintro _ ⟨⟩
    exact closed
  · obtain ⟨rfl, rfl⟩ := Prod.mk.inj h
    exact ⟨s, none, by simp, rfl, rfl⟩

/-- What the reader takes for a term is a written term, as long as it can be. -/
theorem exists_writtenTerm {t : Term α} (h : readTerm text = .ok (t, rest)) :
    ∃ w : WrittenTerm, text = w.text ++ rest ∧ t = w.term ∧ Breaks rest := by
  unfold readTerm at h
  split at h
  · cases h
  · rename_i c letter tail read
    split at h
    · rename_i alpha
      obtain ⟨rfl, rfl⟩ := Prod.mk.inj (Except.ok.inj h)
      obtain ⟨s, magnitude, closed, rfl, rfl⟩ := exists_readCoefficient read
      refine ⟨⟨s, magnitude, letter, _, closed, alpha, takeWhile_digits tail⟩, ?_, rfl,
        breaks_dropWhile tail⟩
      simp [WrittenTerm.text, WrittenTerm.magnitudeText, WrittenTerm.variableText]
    · cases h

theorem readTerm_iff {t : Term α} : readTerm text = .ok (t, rest) ↔
    ∃ w : WrittenTerm, text = w.text ++ rest ∧ t = w.term ∧ Breaks rest := by
  constructor
  · exact exists_writtenTerm
  · rintro ⟨w, rfl, rfl, breaks⟩
    exact readTerm_text w breaks

end

/-! ### Sequences of terms -/

/-- The text of written terms, one behind the other. -/
def writtenSum (ws : List WrittenTerm) : List Char := ws.flatMap WrittenTerm.text

/-- No term but the first begins with a digit. -/
def Greedy (ws : List WrittenTerm) : Prop := ∀ w ∈ ws.tail, Breaks w.text

theorem greedy_nil : Greedy [] := List.forall_mem_nil _

theorem writtenSum_cons (w : WrittenTerm) (ws : List WrittenTerm) :
    writtenSum (w :: ws) = w.text ++ writtenSum ws := rfl

theorem WrittenTerm.text_ne_nil (w : WrittenTerm) : w.text ≠ [] := by
  simp [WrittenTerm.text, WrittenTerm.variableText]

theorem writtenSum_eq_nil {ws : List WrittenTerm} : writtenSum ws = [] ↔ ws = [] := by
  constructor
  · intro none
    cases ws with
    | nil => rfl
    | cons w ws => exact absurd (List.append_eq_nil_iff.mp none).1 w.text_ne_nil
  · rintro rfl
    rfl

theorem breaks_text_append (w : WrittenTerm) (rest : List Char) :
    Breaks (w.text ++ rest) ↔ Breaks w.text := by
  obtain ⟨c, cs, is⟩ := List.exists_cons_of_ne_nil w.text_ne_nil
  rw [is]
  rfl

theorem breaks_writtenSum {ws : List WrittenTerm} (h : ∀ w ∈ ws, Breaks w.text) :
    Breaks (writtenSum ws) := by
  cases ws with
  | nil => exact breaks_nil
  | cons w ws => exact (breaks_text_append w _).mpr (h w List.mem_cons_self)

theorem magnitudeText_inj {a a' : Option Mantissa}
    (same : a.elim [] Mantissa.text = a'.elim [] Mantissa.text) : a = a' := by
  cases a with
  | none =>
    cases a' with
    | none => rfl
    | some m' => exact absurd same.symm m'.text_ne_nil
  | some m =>
    cases a' with
    | none => exact absurd same m.text_ne_nil
    | some m' => rw [Mantissa.text_inj same]

theorem WrittenTerm.text_inj {w w' : WrittenTerm} (same : w.text = w'.text) : w = w' := by
  have names : w.variableText = w'.variableText := by
    have read := readCoefficient_text (α := ℚ) w []
    rw [same, readCoefficient_text w', List.append_nil, List.append_nil] at read
    exact (Prod.mk.inj read).2.symm
  have fronts : w.sign.text ++ w.magnitudeText = w'.sign.text ++ w'.magnitudeText := by
    rw [WrittenTerm.text, WrittenTerm.text, names, ← List.append_assoc,
      ← List.append_assoc] at same
    exact List.append_cancel_right same
  obtain ⟨signs, magnitudes⟩ :=
    sign_unique w.unsigned_magnitudeText w'.unsigned_magnitudeText fronts
  obtain ⟨letters, indices⟩ := List.cons.inj names
  have magnitudes := magnitudeText_inj magnitudes
  obtain ⟨sign, magnitude, letter, index, _, _, _⟩ := w
  obtain ⟨sign', magnitude', letter', index', _, _, _⟩ := w'
  obtain rfl : sign = sign' := signs
  obtain rfl : magnitude = magnitude' := magnitudes
  obtain rfl : letter = letter' := letters
  obtain rfl : index = index' := indices
  rfl

theorem greedy_tail {w : WrittenTerm} {ws : List WrittenTerm} (h : Greedy (w :: ws)) : Greedy ws :=
  fun v mem => h v (List.mem_of_mem_tail mem)

theorem breaks_of_greedy {w : WrittenTerm} {ws : List WrittenTerm} (h : Greedy (w :: ws)) :
    Breaks (writtenSum ws) := breaks_writtenSum h

theorem greedy_unique {ws ws' : List WrittenTerm} (h : Greedy ws) (h' : Greedy ws')
    (same : writtenSum ws = writtenSum ws') : ws = ws' := by
  induction ws generalizing ws' with
  | nil => exact (writtenSum_eq_nil.mp same.symm).symm
  | cons w ws ih =>
    cases ws' with
    | nil => exact writtenSum_eq_nil.mp same
    | cons w' ws' =>
      -- Each of the first terms is the longest one that begins the text.
      have same : w.text ++ writtenSum ws = w'.text ++ writtenSum ws' := same
      have read := readTerm_text (α := ℚ) w (breaks_of_greedy h)
      rw [same, readTerm_text w' (breaks_of_greedy h')] at read
      have rests := (Prod.mk.inj (Except.ok.inj read)).2
      rw [← rests] at same
      rw [WrittenTerm.text_inj (List.append_cancel_right same),
        ih (greedy_tail h) (greedy_tail h') rests.symm]

/-- What is left of a magnitude without its whole part: the fraction, or nothing. -/
theorem Mantissa.exists_fraction {m : Mantissa} (closed : m.fraction ≠ some []) :
    ∃ magnitude : Option Mantissa, (∀ m' ∈ magnitude, m'.fraction ≠ some []) ∧
      magnitude.elim [] Mantissa.text = m.pointedText := by
  have digits := m.fraction_digits
  unfold Mantissa.pointedText
  cases fraction : m.fraction with
  | none => exact ⟨none, by simp, rfl⟩
  | some ds =>
    rw [fraction] at closed digits
    have present : ds ≠ [] := fun none => closed (congrArg some none)
    refine ⟨some ⟨[], some ds, List.forall_mem_nil _, digits, Or.inr ⟨ds, rfl, present⟩⟩, ?_, rfl⟩
    rintro _ ⟨⟩
    exact closed

/-- The digits that begin a term, and the term without them. -/
theorem exists_split (w : WrittenTerm) : ∃ (ds : List Char) (w' : WrittenTerm),
    (∀ d ∈ ds, d.isDigit = true) ∧ Breaks w'.text ∧ w.text = ds ++ w'.text := by
  have names : Breaks w.variableText := by
    rintro c ⟨⟩
    exact (Text.alpha_spec w.letter_isAlpha).1
  cases signed : w.sign with
  | absent =>
    cases magnitude : w.magnitude with
    | none =>
      refine ⟨[], w, List.forall_mem_nil _, ?_, rfl⟩
      rw [WrittenTerm.text, WrittenTerm.magnitudeText, signed, magnitude]
      exact names
    | some m =>
      obtain ⟨magnitude', closed, fraction⟩ := m.exists_fraction (w.magnitude_closed m magnitude)
      have text : { w with magnitude := magnitude', magnitude_closed := closed }.text =
          m.pointedText ++ w.variableText := by
        rw [WrittenTerm.text, signed]
        exact congrArg (· ++ w.variableText) fraction
      refine ⟨m.whole, _, m.whole_digits, text ▸ breaks_pointedText_append m names, ?_⟩
      rw [text, WrittenTerm.text, WrittenTerm.magnitudeText, signed, magnitude]
      exact List.append_assoc _ _ _
  | plus =>
    refine ⟨[], w, List.forall_mem_nil _, ?_, rfl⟩
    rw [WrittenTerm.text, signed]
    rintro c ⟨⟩
    rfl
  | minus =>
    refine ⟨[], w, List.forall_mem_nil _, ?_, rfl⟩
    rw [WrittenTerm.text, signed]
    rintro c ⟨⟩
    rfl

/-- The term with more digits at its end. -/
def WrittenTerm.extend (w : WrittenTerm) {ds : List Char} (digits : ∀ d ∈ ds, d.isDigit = true) :
    WrittenTerm where
  sign := w.sign
  magnitude := w.magnitude
  letter := w.letter
  index := w.index ++ ds
  magnitude_closed := w.magnitude_closed
  letter_isAlpha := w.letter_isAlpha
  index_digits := List.forall_mem_append.mpr ⟨w.index_digits, digits⟩

theorem WrittenTerm.text_extend (w : WrittenTerm) {ds : List Char}
    (digits : ∀ d ∈ ds, d.isDigit = true) : (w.extend digits).text = w.text ++ ds := by
  simp [WrittenTerm.text, WrittenTerm.magnitudeText, WrittenTerm.variableText, WrittenTerm.extend]

theorem exists_greedy_cons (w : WrittenTerm) (ws : List WrittenTerm) :
    ∃ w' ws', (∀ v ∈ ws', Breaks v.text) ∧ writtenSum (w' :: ws') = writtenSum (w :: ws) ∧
      (Breaks w.text → Breaks w'.text) := by
  induction ws generalizing w with
  | nil => exact ⟨w, [], List.forall_mem_nil _, rfl, id⟩
  | cons v ws ih =>
    obtain ⟨ds, v', digits, breaks, parted⟩ := exists_split v
    obtain ⟨v'', ws', others, same, keeps⟩ := ih v'
    refine ⟨w.extend digits, v'' :: ws', List.forall_mem_cons.mpr ⟨keeps breaks, others⟩, ?_, ?_⟩
    · calc writtenSum (w.extend digits :: v'' :: ws')
        _ = w.text ++ ds ++ writtenSum (v'' :: ws') := by rw [writtenSum_cons, w.text_extend]
        _ = w.text ++ (ds ++ v'.text ++ writtenSum ws) := by
          rw [same, writtenSum_cons, List.append_assoc, List.append_assoc]
        _ = writtenSum (w :: v :: ws) := by rw [writtenSum_cons, writtenSum_cons, parted]
    · rw [w.text_extend, breaks_text_append]
      exact id

/-- Terms can be regrouped so that none but the first begins with a digit: the digits that begin a
term may as well end the variable before it. -/
theorem exists_greedy (ws : List WrittenTerm) :
    ∃ ws', Greedy ws' ∧ writtenSum ws' = writtenSum ws := by
  cases ws with
  | nil => exact ⟨[], greedy_nil, rfl⟩
  | cons w ws =>
    obtain ⟨w', ws', breaks, same, -⟩ := exists_greedy_cons w ws
    exact ⟨w' :: ws', breaks, same⟩

section
variable {α : Type} [Scalar α] {text stop : List Char} {ts : List (Term α)}

theorem readMany_writtenSum {ws : List WrittenTerm} (greedy : Greedy ws) :
    readMany (writtenSum ws) = (ws.map (·.term (α := α)), []) := by
  induction ws with
  | nil =>
    rw [readMany]
    rfl
  | cons w ws ih =>
    rw [writtenSum_cons, readMany_of_ok (readTerm_text w (breaks_of_greedy greedy)),
      ih (greedy_tail greedy)]
    rfl

theorem exists_writtenSum (text : List Char) : ∃ ws : List WrittenTerm, Greedy ws ∧
    text = writtenSum ws ++ (readMany (α := α) text).2 ∧
    (readMany (α := α) text).1 = ws.map (·.term) := by
  fun_induction readMany (α := α) text with
  | case1 text stop failed => exact ⟨[], greedy_nil, rfl, rfl⟩
  | case2 text t rest read shorter ts stop others ih =>
    rw [others] at ih
    obtain ⟨ws, greedy, parted, terms⟩ := ih
    obtain ⟨w, rfl, rfl, breaks⟩ := exists_writtenTerm read
    refine ⟨w :: ws, fun v mem => ?_, ?_, congrArg (_ :: ·) terms⟩
    · rw [parted] at breaks
      cases ws with
      | nil => cases mem
      | cons v' ws =>
        rw [writtenSum_cons, List.append_assoc, breaks_text_append] at breaks
        have all : ∀ u ∈ v' :: ws, Breaks u.text := List.forall_mem_cons.mpr ⟨breaks, greedy⟩
        exact all v mem
    · rw [parted, writtenSum_cons, List.append_assoc]

/-- A text is read if it is a sequence of written terms, and read as the one sequence of which no
term but the first begins with a digit. -/
theorem readTerms_iff : readTerms text = .ok ts ↔
    ∃ ws, ws ≠ [] ∧ Greedy ws ∧ text = writtenSum ws ∧ ts = ws.map (·.term) := by
  constructor
  · intro h
    obtain ⟨ws, greedy, parted, terms⟩ := exists_writtenSum (α := α) text
    unfold readTerms at h
    split at h
    · cases h
    · rename_i some
      split at h
      · cases h
      · split at h
        · rename_i all
          rw [all, List.append_nil] at parted
          rw [all] at terms
          cases h
          exact ⟨ws, fun none => some (by rw [parted, none]; rfl), greedy, parted, terms⟩
        · cases h
  · rintro ⟨ws, some, greedy, rfl, rfl⟩
    have all := readMany_writtenSum (α := α) greedy
    obtain ⟨w, ws, rfl⟩ := List.exists_cons_of_ne_nil some
    have read := readTerm_text (α := α) w (breaks_of_greedy greedy)
    rw [readTerms, if_neg (mt writtenSum_eq_nil.mp some), all, writtenSum_cons, read]

/-- The reader is not misled by its greed: what can be cut into terms at all is read. -/
theorem exists_readTerms_iff (text : List Char) :
    (∃ ts : List (Term α), readTerms text = .ok ts) ↔
      ∃ ws : List WrittenTerm, ws ≠ [] ∧ text = writtenSum ws := by
  constructor
  · rintro ⟨ts, read⟩
    obtain ⟨ws, some, -, written, -⟩ := readTerms_iff.mp read
    exact ⟨ws, some, written⟩
  · rintro ⟨ws, some, written⟩
    obtain ⟨ws', greedy, same⟩ := exists_greedy ws
    have present : ws' ≠ [] := fun none =>
      some (writtenSum_eq_nil.mp (same.symm.trans (writtenSum_eq_nil.mpr none)))
    exact ⟨_, readTerms_iff.mpr ⟨ws', present, greedy, written.trans same.symm, rfl⟩⟩

end

/-! ### Terms over doubles -/

/-- The term has the name that is written and the sign times the magnitude: the double nearest to
the decimal, or one where none is written. -/
structure WrittenTerm.Means (w : WrittenTerm) (t : Term Float) : Prop where
  name : t.name = String.ofList w.variableText
  coefficient : ∃ magnitude : Float,
    t.coefficient = (if w.sign = .minus then -1 else 1) * magnitude ∧
      match w.magnitude with
      | none => magnitude = 1
      | some m => Double.IsNearest m.value magnitude

theorem WrittenTerm.means_term (w : WrittenTerm) : w.Means w.term := by
  refine ⟨rfl, w.magnitude.elim 1 fun m => m.numeral.toScalar, ?_, ?_⟩
  · rw [WrittenTerm.term]
    cases w.sign <;> rfl
  · cases w.magnitude with
    | none => rfl
    | some m => exact m.isNearest_toScalar

/-- A text reads as terms if and only if it is a sequence of one or more written terms. The terms
are then those of the one such sequence in which no term but the first begins with a digit. -/
theorem terms_of_text (text : String) :
    ((∃ ts : List (Term Float), Term.listOfText text = .ok ts) ↔
      ∃ ws : List WrittenTerm, ws ≠ [] ∧ text.toList = writtenSum ws) ∧
    ∀ ts : List (Term Float), Term.listOfText text = .ok ts →
      ∃ ws : List WrittenTerm, (Greedy ws ∧ text.toList = writtenSum ws) ∧
        (∀ ws', Greedy ws' → text.toList = writtenSum ws' → ws' = ws) ∧
        List.Forall₂ WrittenTerm.Means ws ts := by
  simp only [Term.listOfText, mapError_eq_ok_iff]
  refine ⟨exists_readTerms_iff text.toList, fun ts read => ?_⟩
  obtain ⟨ws, -, greedy, written, rfl⟩ := readTerms_iff.mp read
  refine ⟨ws, ⟨greedy, written⟩, fun ws' greedy' written' => ?_, ?_⟩
  · exact greedy_unique greedy' greedy (written'.symm.trans written)
  · rw [List.forall₂_map_right_iff]
    exact List.forall₂_same.mpr fun w _ => w.means_term

/-- The digits behind `x` could begin the term of `y`, and the reader gives those in front of the
point to `x`. -/
theorem terms_of_text_shared : ∃ (t t' : Term Float) (magnitude : Float),
    Term.listOfText "x12.5y" = .ok [t, t'] ∧ t.name = "x12" ∧ t.coefficient = 1 * 1 ∧
      t'.name = "y" ∧ t'.coefficient = 1 * magnitude ∧ Double.IsNearest (1 / 2) magnitude := by
  let x : WrittenTerm := ⟨.absent, none, 'x', ['1', '2'], by simp, rfl, by simp⟩
  let half : Mantissa := ⟨[], some ['5'], by simp, by simp, Or.inr ⟨['5'], rfl, by decide⟩⟩
  let y : WrittenTerm := ⟨.absent, some half, 'y', [], by decide, rfl, by simp⟩
  have greedy : Greedy [x, y] := by
    rintro w ⟨⟩
    · rintro c ⟨⟩
      rfl
    · contradiction
  obtain ⟨accepts, reads⟩ := terms_of_text "x12.5y"
  obtain ⟨ts, read⟩ := accepts.mpr ⟨[x, y], List.cons_ne_nil _ _, rfl⟩
  obtain ⟨ws, -, unique, means⟩ := reads ts read
  obtain rfl := unique [x, y] greedy rfl
  obtain _ | ⟨⟨name, _, coefficient, rfl⟩, _ | ⟨⟨name', magnitude, coefficient', nearest⟩, _ | _⟩⟩ :=
    means
  have value : half.value = 1 / 2 := by
    show ((5 : Nat) : ℚ) / 10 ^ 1 = 1 / 2
    norm_num
  exact ⟨_, _, magnitude, read, name, coefficient, name', coefficient', value ▸ nearest⟩

end Simplex
