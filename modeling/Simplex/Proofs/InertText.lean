import Simplex.Text.Blank
import Simplex.Text.Cut
import Mathlib

/-!
# Texts of terms and numbers

Letters, digits, points and signs are neither blanks nor comparison signs, so texts of them pass
`compact` and `trim` unchanged, and the first character of a mark that they lack is found only
where the mark stands.
-/

namespace Simplex.Text

/-! ### Characters -/

/-- The characters of which terms and numbers are written. -/
def isInert (c : Char) : Bool := c.isAlphanum || c == '.' || c == '+' || c == '-'

theorem toNat_lt_of_isInert {c : Char} (h : isInert c = true) : c.toNat < 128 := by
  simp only [isInert, Char.isAlphanum, Char.isAlpha, Char.isUpper, Char.isLower, Char.isDigit,
    Bool.or_eq_true, Bool.and_eq_true, decide_eq_true_eq, beq_iff_eq] at h
  rcases h with ((((⟨-, upper⟩ | ⟨-, lower⟩) | ⟨-, digit⟩) | rfl) | rfl) | rfl
  · exact Nat.lt_of_le_of_lt (UInt32.le_iff_toNat_le.mp upper) (by decide)
  · exact Nat.lt_of_le_of_lt (UInt32.le_iff_toNat_le.mp lower) (by decide)
  · exact Nat.lt_of_le_of_lt (UInt32.le_iff_toNat_le.mp digit) (by decide)
  · decide
  · decide
  · decide

theorem forall_ascii {P : Char → Prop} (all : ∀ n : Fin 128, P (Char.ofNat n)) {c : Char}
    (h : c.toNat < 128) : P c := by
  have here := all ⟨c.toNat, h⟩
  rwa [Char.ofNat_toNat] at here

/-- They are no blanks and no comparison signs. -/
theorem inert_spec {c : Char} (h : isInert c = true) :
    plain c = [c] ∧ isBlank c = false ∧ c ∉ ['<', '>', '='] :=
  forall_ascii
    (P := fun c => isInert c = true → plain c = [c] ∧ isBlank c = false ∧ c ∉ ['<', '>', '='])
    (by decide) (toNat_lt_of_isInert h) h

theorem isInert_of_isAlpha {c : Char} (h : c.isAlpha = true) : isInert c = true := by
  simp [isInert, Char.isAlphanum, h]

theorem alpha_spec {c : Char} (h : c.isAlpha = true) : c.isDigit = false ∧ c ≠ '.' :=
  forall_ascii (P := fun c => c.isAlpha = true → c.isDigit = false ∧ c ≠ '.')
    (by decide) (toNat_lt_of_isInert (isInert_of_isAlpha h)) h

def Inert (text : List Char) : Prop := ∀ c ∈ text, isInert c = true

theorem inert_nil : Inert [] := List.forall_mem_nil _

theorem Inert.cons {c : Char} {text : List Char} (first : isInert c = true) (h : Inert text) :
    Inert (c :: text) :=
  List.forall_mem_cons.mpr ⟨first, h⟩

theorem Inert.append {a b : List Char} (ha : Inert a) (hb : Inert b) : Inert (a ++ b) :=
  List.forall_mem_append.mpr ⟨ha, hb⟩

theorem Inert.of_digits {text : List Char} (h : ∀ c ∈ text, c.isDigit = true) : Inert text := by
  intro c mem
  simp [isInert, Char.isAlphanum, h c mem]

theorem Inert.compact {text : List Char} (h : Inert text) : compact text = text := by
  induction text with
  | nil => rfl
  | cons c text ih =>
    obtain ⟨first, others⟩ := List.forall_mem_cons.mp h
    show plain c ++ Text.compact text = c :: text
    rw [(inert_spec first).1, ih others]
    rfl

/-- The text has no character of a comparison sign. -/
def Unmarked (text : List Char) : Prop := ∀ c ∈ text, c ∉ ['<', '>', '=']

theorem Inert.unmarked {text : List Char} (h : Inert text) : Unmarked text :=
  fun c mem => (inert_spec (h c mem)).2.2

theorem not_mark_of_isBlank {c : Char} (blank : isBlank c = true) : c ∉ ['<', '>', '='] := by
  simp only [List.mem_cons, List.not_mem_nil, or_false]
  rintro (rfl | rfl | rfl) <;> cases blank

theorem mem_trim_or_isBlank {c : Char} {text : List Char} (mem : c ∈ text) :
    c ∈ trim text ∨ isBlank c = true := by
  have cut : ∀ {text : List Char}, c ∈ text → c ∈ text.dropWhile isBlank ∨ isBlank c = true := by
    intro text mem
    rw [← List.takeWhile_append_dropWhile (p := isBlank) (l := text), List.mem_append] at mem
    exact mem.symm.imp_right List.mem_takeWhile_imp
  rcases cut mem with behind | blank
  · rcases cut (List.mem_reverse.mpr behind) with between | blank
    · exact Or.inl (List.mem_reverse.mpr between)
    · exact Or.inr blank
  · exact Or.inr blank

/-- What is cut off from the ends of a text marks nothing. -/
theorem unmarked_of_trim {text : List Char} (h : Unmarked (trim text)) : Unmarked text := by
  intro c mem
  rcases mem_trim_or_isBlank mem with within | blank
  · exact h c within
  · exact not_mark_of_isBlank blank

theorem dropWhile_isBlank {text : List Char} (h : Inert text) : text.dropWhile isBlank = text := by
  cases text with
  | nil => rfl
  | cons c text => rw [List.dropWhile_cons_of_neg (by simp [(inert_spec (h c (by simp))).2.1])]

theorem Inert.trim {text : List Char} (h : Inert text) : trim text = text := by
  rw [Text.trim, dropWhile_isBlank h,
    dropWhile_isBlank (fun c mem => h c (List.mem_reverse.mp mem)), List.reverse_reverse]

/-! ### Cutting at a mark -/

section
variable {c : Char} {marks text front back : List Char}

theorem splitOnce_eq_none (absent : c ∉ text) : splitOnce (c :: marks) text = none := by
  induction text with
  | nil => rfl
  | cons d text ih =>
    have other := List.ne_of_not_mem_cons absent
    have others := List.not_mem_of_not_mem_cons absent
    rw [splitOnce, if_neg (by simp [List.isPrefixOf, other]), ih others]
    rfl

theorem splitOnce_append (absent : c ∉ front) :
    splitOnce (c :: marks) (front ++ (c :: marks ++ back)) = some (front, back) := by
  induction front with
  | nil =>
    show splitOnce (c :: marks) (c :: (marks ++ back)) = _
    have begins : (c :: marks).isPrefixOf (c :: (marks ++ back)) = true :=
      List.isPrefixOf_iff_prefix.mpr ⟨back, rfl⟩
    rw [splitOnce, if_pos begins]
    simp
  | cons d front ih =>
    have other := List.ne_of_not_mem_cons absent
    have others := List.not_mem_of_not_mem_cons absent
    rw [List.cons_append, splitOnce, if_neg (by simp [List.isPrefixOf, other]), ih others]
    rfl

end

end Simplex.Text
