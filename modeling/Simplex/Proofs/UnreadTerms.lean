import Simplex.Proofs.WrittenTerms

/-!
# Where the reading of terms stops

Whatever written term begins a text, the reader takes it, with more digits if more follow
(`exists_readTerm_append`), and of a text that no term begins it takes the longest sign and
magnitude (`readCoefficient_append`). So a text that is refused has been read as far as terms
reach in it, and the fault tells the offset and the rest (`fault_of_text`).
-/

namespace Simplex

open Decimal (readSign Numeral)

/-! ### How far a text can be read -/

/-- What may stand in front of a variable: `[+|-] [digits[.digits] | .digits]`. -/
structure WrittenCoefficient where
  sign : SignMark
  magnitude : Option Mantissa
  magnitude_closed : ∀ m ∈ magnitude, m.fraction ≠ some []

namespace WrittenCoefficient

def magnitudeText (w : WrittenCoefficient) : List Char := w.magnitude.elim [] Mantissa.text

def text (w : WrittenCoefficient) : List Char := w.sign.text ++ w.magnitudeText

end WrittenCoefficient

/-- The lengths of the sequences of one or more terms that begin a text, in bytes. -/
def sumLengths (text : List Char) : Set Nat :=
  {k | ∃ ws rest, ws ≠ [] ∧ text = writtenSum ws ++ rest ∧ k = Text.byteLength (writtenSum ws)}

/-- The lengths of the signs and magnitudes that begin a text, in bytes. -/
def coefficientLengths (text : List Char) : Set Nat :=
  {k | ∃ (w : WrittenCoefficient) (rest : List Char),
    text = w.text ++ rest ∧ k = Text.byteLength w.text}

/-- The terms that begin a text reach as far as `k` bytes or, if not one term begins it, its sign
and magnitude do. -/
def IsReach (text : List Char) (k : Nat) : Prop :=
  IsGreatest (sumLengths text) k ∨
    sumLengths text = ∅ ∧ IsGreatest (coefficientLengths text) k

theorem IsReach.unique {text : List Char} {k k' : Nat} (h : IsReach text k)
    (h' : IsReach text k') : k = k' := by
  rcases h with sum | ⟨none, coefficient⟩
  · rcases h' with sum' | ⟨none, -⟩
    · exact sum.unique sum'
    · exact absurd none sum.nonempty.ne_empty
  · rcases h' with sum' | ⟨-, coefficient'⟩
    · exact absurd none sum'.nonempty.ne_empty
    · exact coefficient.unique coefficient'

/-- What is read is the longer, the less is left. -/
theorem byteLength_le_of_suffix {front rest front' rest' : List Char}
    (same : front ++ rest = front' ++ rest') (less : rest' <:+ rest) :
    Text.byteLength front ≤ Text.byteLength front' := by
  obtain ⟨between, rfl⟩ := less
  rw [← List.append_assoc] at same
  rw [← List.append_cancel_right same, Text.byteLength_append]
  exact Nat.le_add_right _ _

/-! ### Magnitudes -/

/-- A magnitude that begins a text is read, with what more there is of it. -/
theorem exists_readMagnitude_append {m : Mantissa} (closed : m.fraction ≠ some [])
    (rest : List Char) :
    ∃ n stop, Numeral.readMagnitude (m.text ++ rest) = some (n, stop) ∧ stop <:+ rest := by
  have digits := m.fraction_digits
  have present := m.present
  rw [Mantissa.text, Mantissa.pointedText]
  unfold Numeral.readMagnitude
  dsimp only
  cases fraction : m.fraction with
  | none =>
    have whole : m.whole ≠ [] := present.resolve_right (by simp [fraction])
    have left := List.dropWhile_suffix (l := rest) Char.isDigit
    rw [Option.elim_none, List.append_nil, List.takeWhile_append_of_pos m.whole_digits,
      List.dropWhile_append_of_pos m.whole_digits]
    have some : m.whole ++ rest.takeWhile Char.isDigit ≠ [] :=
      fun none => whole (List.append_eq_nil_iff.mp none).1
    split
    · rename_i d tail point
      split
      · refine ⟨_, _, rfl, ?_⟩
        have behind : tail <:+ rest := (point ▸ ⟨['.', d], rfl⟩ : tail <:+ _).trans left
        exact (List.dropWhile_suffix _).trans behind
      · exact ⟨_, _, rfl, left⟩
    · exact ⟨_, _, if_neg some, left⟩
  | some ds =>
    obtain ⟨d, ds, rfl⟩ := List.exists_cons_of_ne_nil fun none => closed (none ▸ fraction)
    obtain ⟨digit, others⟩ := List.forall_mem_cons.mp (digits _ fraction)
    have boundary : ∀ c ∈ ('.' :: d :: (ds ++ rest)).head?, c.isDigit = false := by
      rintro c ⟨⟩
      rfl
    obtain ⟨before, behind⟩ := Decimal.cut_digits m.whole_digits boundary
    simp only [Option.elim_some, List.cons_append, List.append_assoc, before, behind, digit,
      if_true, List.dropWhile_append_of_pos others]
    exact ⟨_, _, rfl, List.dropWhile_suffix _⟩

section
variable {α : Type} [Scalar α] {text stop rest : List Char}

theorem readCoefficient_suffix (magnitude : ∀ n stop,
      Numeral.readMagnitude (readSign text).2 = some (n, stop) → stop <:+ rest)
    (none : Numeral.readMagnitude (readSign text).2 = none → (readSign text).2 <:+ rest) :
    (readCoefficient (α := α) text).2 <:+ rest := by
  unfold readCoefficient
  dsimp only
  split
  · rename_i n stop read
    exact magnitude n stop read
  · rename_i read
    exact none read

/-- A sign and a magnitude that begin a text are read, with what more there is of them. -/
theorem readCoefficient_append (w : WrittenCoefficient) (rest : List Char) :
    (readCoefficient (α := α) (w.text ++ rest)).2 <:+ rest := by
  rw [WrittenCoefficient.text, List.append_assoc, WrittenCoefficient.magnitudeText]
  cases magnitude : w.magnitude with
  | none =>
    have left : ∀ u, u <:+ rest → ∀ n stop, Numeral.readMagnitude u = some (n, stop) →
        stop <:+ rest := by
      intro u less n stop read
      obtain ⟨m, -, rfl, -⟩ := exists_mantissa read
      exact (List.suffix_append _ _).trans less
    have unsigned : (readSign (w.sign.text ++ rest)).2 <:+ rest := by
      cases w.sign with
      | absent =>
        obtain ⟨s, parted, -⟩ := exists_readSign rest
        exact ⟨s.text, parted.symm⟩
      | plus => exact List.suffix_refl rest
      | minus => exact List.suffix_refl rest
    exact readCoefficient_suffix (left _ unsigned) fun _ => unsigned
  | some m =>
    obtain ⟨n, stop, read, less⟩ := exists_readMagnitude_append (w.magnitude_closed m magnitude) rest
    have unsigned := readSign_text w.sign (m.unsigned rest)
    refine readCoefficient_suffix (fun n' stop' read' => ?_) fun none => ?_
    · rw [Option.elim_some, unsigned, read] at read'
      obtain ⟨-, rfl⟩ := Prod.mk.inj (Option.some.inj read')
      exact less
    · rw [Option.elim_some, unsigned, read] at none
      cases none

/-! ### Terms -/

theorem snd_readCoefficient_of_error (h : readTerm (α := α) text = .error stop) :
    (readCoefficient (α := α) text).2 = stop := by
  unfold readTerm at h
  split at h
  · rename_i c read
    rw [read]
    exact Except.error.inj h
  · rename_i c letter tail read
    split at h
    · cases h
    · rw [read]
      exact Except.error.inj h

/-- A term that begins a text is read, with the digits that follow it. -/
theorem exists_readTerm_append (w : WrittenTerm) (rest : List Char) :
    ∃ (t : Term α) (stop : List Char), readTerm (w.text ++ rest) = .ok (t, stop) ∧ stop <:+ rest := by
  have digits := takeWhile_digits rest
  have parted : w.text ++ rest = (w.extend digits).text ++ rest.dropWhile Char.isDigit := by
    rw [w.text_extend, List.append_assoc, List.takeWhile_append_dropWhile]
  have read := readTerm_text (α := α) (w.extend digits) (breaks_dropWhile rest)
  rw [← parted] at read
  exact ⟨_, _, read, List.dropWhile_suffix _⟩

theorem readMany_suffix (text : List Char) : (readMany (α := α) text).2 <:+ text := by
  obtain ⟨ws, -, parted, -⟩ := exists_writtenSum (α := α) text
  exact ⟨writtenSum ws, parted.symm⟩

/-- Terms that begin a text are read, with what more there is of them. -/
theorem readMany_append {ws : List WrittenTerm} (greedy : Greedy ws) (rest : List Char) :
    (readMany (α := α) (writtenSum ws ++ rest)).2 <:+ rest := by
  induction ws with
  | nil => exact readMany_suffix rest
  | cons w ws ih =>
    rw [writtenSum_cons, List.append_assoc]
    cases ws with
    | nil =>
      obtain ⟨t, stop, read, less⟩ := exists_readTerm_append (α := α) w rest
      rw [writtenSum, List.flatMap_nil, List.nil_append, readMany_of_ok read]
      exact (readMany_suffix stop).trans less
    | cons v ws =>
      have breaks : Breaks (writtenSum (v :: ws) ++ rest) := by
        rw [writtenSum_cons, List.append_assoc, breaks_text_append]
        exact greedy v List.mem_cons_self
      rw [readMany_of_ok (readTerm_text w breaks)]
      exact ih (greedy_tail greedy)

/-! ### Refused texts -/

theorem sumLengths_of_error (h : readTerm (α := α) text = .error stop) : sumLengths text = ∅ := by
  refine Set.eq_empty_iff_forall_notMem.mpr ?_
  rintro k ⟨ws, rest, some, rfl, -⟩
  obtain ⟨w, ws, rfl⟩ := List.exists_cons_of_ne_nil some
  obtain ⟨t, stop', read, -⟩ := exists_readTerm_append (α := α) w (writtenSum ws ++ rest)
  rw [writtenSum_cons, List.append_assoc, read] at h
  cases h

theorem exists_reach_of_error (h : readTerm (α := α) text = .error stop) :
    ∃ front, text = front ++ stop ∧ IsReach text (Text.byteLength front) := by
  have left := snd_readCoefficient_of_error h
  obtain ⟨s, magnitude, closed, parted, -⟩ :=
    exists_readCoefficient (Prod.mk.eta (p := readCoefficient (α := α) text)).symm
  rw [left, ← List.append_assoc] at parted
  let w : WrittenCoefficient := ⟨s, magnitude, closed⟩
  have parted : text = w.text ++ stop := parted
  refine ⟨w.text, parted, Or.inr ⟨sumLengths_of_error h, ⟨w, stop, parted, rfl⟩, ?_⟩⟩
  rintro k ⟨w', rest, parted', rfl⟩
  have less := readCoefficient_append (α := α) w' rest
  rw [← parted', left] at less
  exact byteLength_le_of_suffix (parted'.symm.trans parted) less

theorem exists_reach_of_ok {t : Term α} (h : readTerm text = .ok (t, rest)) :
    ∃ front, text = front ++ (readMany (α := α) text).2 ∧
      IsReach text (Text.byteLength front) := by
  obtain ⟨ws, greedy, parted, terms⟩ := exists_writtenSum (α := α) text
  have some : ws ≠ [] := by
    rintro rfl
    rw [readMany_of_ok h] at terms
    cases terms
  refine ⟨writtenSum ws, parted, Or.inl ⟨⟨ws, _, some, parted, rfl⟩, ?_⟩⟩
  rintro k ⟨ws', rest', -, parted', rfl⟩
  obtain ⟨ws'', greedy', same⟩ := exists_greedy ws'
  have less := readMany_append (α := α) greedy' rest'
  rw [same, ← parted'] at less
  exact byteLength_le_of_suffix (parted'.symm.trans parted) less

theorem exists_reach {cause : SyntaxFault} (some : text ≠ [])
    (h : readTerms (α := α) text = .error cause) :
    ∃ front stop, text = front ++ stop ∧ IsReach text (Text.byteLength front) ∧
      cause = flawAt text stop := by
  unfold readTerms at h
  rw [if_neg some] at h
  split at h
  · rename_i stop refused
    obtain ⟨front, parted, reach⟩ := exists_reach_of_error refused
    exact ⟨front, stop, parted, reach, (Except.error.inj h).symm⟩
  · rename_i read
    obtain ⟨front, parted, reach⟩ := exists_reach_of_ok read
    split at h
    · cases h
    · rename_i terms stop _ all
      rw [all] at parted
      exact ⟨front, stop, parted, reach, (Except.error.inj h).symm⟩

end

theorem utf8ByteSize_ofList (text : List Char) :
    (String.ofList text).utf8ByteSize = Text.byteLength text := by
  induction text with
  | nil => rfl
  | cons c text ih =>
    rw [String.ofList_cons, String.utf8ByteSize_append, String.utf8ByteSize_singleton, ih]
    rfl

theorem flawAt_append (front stop : List Char) : flawAt (front ++ stop) stop =
    if (String.ofList front).utf8ByteSize = 0 then .noTermIn (String.ofList (front ++ stop))
    else .unexpected (String.ofList stop) (String.ofList front).utf8ByteSize
      (String.ofList (front ++ stop)) := by
  rw [flawAt, Text.byteLength_append, Nat.add_sub_cancel, utf8ByteSize_ofList]

/-- A text that is refused has a front as long as terms reach in it, or as its sign and magnitude
do if not one term begins it. The fault tells that length and the rest of the text, or that there
is no term if the front is empty. -/
theorem fault_of_text (text : String) (some : text ≠ "") (fault : Fault Float)
    (refused : Term.listOfText text = .error fault) :
    ∃ front rest : String, text = front ++ rest ∧ IsReach text.toList front.utf8ByteSize ∧
      (∀ k, IsReach text.toList k → k = front.utf8ByteSize) ∧
      ∃ cause, fault = .unreadable none cause ∧
        cause = (if front.utf8ByteSize = 0 then .noTermIn text
          else .unexpected rest front.utf8ByteSize text) ∧
        cause.message = if front.utf8ByteSize = 0 then s!"no term found in '{text}'"
          else s!"unexpected '{rest}' at offset {front.utf8ByteSize} in '{text}'" := by
  have present : text.toList ≠ [] := fun none => some (String.toList_eq_nil_iff.mp none)
  rw [Term.listOfText] at refused
  cases read : readTerms (α := Float) text.toList with
  | ok ts =>
    rw [read] at refused
    cases refused
  | error cause =>
    rw [read] at refused
    obtain ⟨front, stop, parted, reach, same⟩ := exists_reach present read
    have whole : String.ofList (front ++ stop) = text := by rw [← parted, String.ofList_toList]
    rw [← utf8ByteSize_ofList] at reach
    rw [parted, flawAt_append, whole] at same
    refine ⟨.ofList front, .ofList stop, ?_, reach, fun k other => other.unique reach, cause,
      (Except.error.inj refused).symm, same, ?_⟩
    · rw [← String.ofList_append, whole]
    · rw [same]
      split <;> rfl

/-- The second term has a sign and a magnitude and no variable, and the fault names where it
begins. -/
theorem fault_of_text_nameless : ∃ fault : Fault Float,
    Term.listOfText "2x-.5é" = .error fault ∧ IsReach "2x-.5é".toList 2 ∧
      ∃ cause, fault = .unreadable none cause ∧
        cause.message = "unexpected '-.5é' at offset 2 in '2x-.5é'" := by
  have refused : Term.listOfText (α := Float) "2x-.5é" =
      .error (.unreadable none (.unexpected "-.5é" 2 "2x-.5é")) := by
    decide +kernel
  obtain ⟨front, rest, -, reach, -, cause, same, stopped, -⟩ :=
    fault_of_text "2x-.5é" (by decide) _ refused
  obtain ⟨-, rfl⟩ := Fault.unreadable.inj same
  split at stopped
  · cases stopped
  · obtain ⟨-, length, -⟩ := SyntaxFault.unexpected.inj stopped
    exact ⟨_, refused, length ▸ reach, _, rfl, rfl⟩

end Simplex
