import Simplex.Proofs.WrittenConstraints

/-!
# Normal texts

`compact` leaves alone what it has written (`compact_compact`) and does not see the blanks of a text
(`compact_of_spaced`). Terms and numbers are written without blanks and without glyphs, so of a text
that is read it takes off what the reader trims and nothing else: a constraint stays the same
constraint, and an objective is not changed at all (`normalize_of_readable`).
-/

namespace Simplex

namespace Text

/-- The second text is the first with blanks put in, anywhere and any number of them. -/
inductive Spaced : List Char → List Char → Prop
  | nil : Spaced [] []
  | keep (c : Char) {text spaced : List Char} :
    Spaced text spaced → Spaced (c :: text) (c :: spaced)
  | blank {c : Char} {text spaced : List Char} :
    isBlank c = true → Spaced text spaced → Spaced text (c :: spaced)

section
variable {c : Char} {text spaced : List Char}

theorem compact_cons (c : Char) (text : List Char) : compact (c :: text) = plain c ++ compact text :=
  rfl

theorem plain_of_isBlank (blank : isBlank c = true) : plain c = [] := by
  have less : c ≠ '≤' := by
    rintro rfl
    cases blank
  have more : c ≠ '≥' := by
    rintro rfl
    cases blank
  rw [plain, if_neg less, if_neg more, if_pos blank]

/-- A character is written in characters that stand for themselves. -/
theorem compact_plain (c : Char) : compact (plain c) = plain c := by
  by_cases less : c = '≤'
  · subst less
    rfl
  by_cases more : c = '≥'
  · subst more
    rfl
  by_cases blank : isBlank c = true
  · rw [plain_of_isBlank blank]
    rfl
  · have itself : plain c = [c] := by rw [plain, if_neg less, if_neg more, if_neg blank]
    rw [itself, compact_cons, itself]
    rfl

theorem compact_compact (text : List Char) : compact (compact text) = compact text := by
  induction text with
  | nil => rfl
  | cons c text ih => rw [compact_cons, compact_append, compact_plain, ih]

theorem compact_of_spaced (h : Spaced text spaced) : compact spaced = compact text := by
  induction h with
  | nil => rfl
  | keep c _ ih => rw [compact_cons, compact_cons, ih]
  | blank blank _ ih => rw [compact_cons, plain_of_isBlank blank, ih, List.nil_append]

theorem compact_of_blanks (blanks : ∀ c ∈ text, isBlank c = true) : compact text = [] :=
  List.flatMap_eq_nil_iff.mpr fun c mem => plain_of_isBlank (blanks c mem)

theorem compact_dropWhile (text : List Char) : compact (text.dropWhile isBlank) = compact text := by
  have blanks : compact (text.takeWhile isBlank) = [] :=
    compact_of_blanks fun _ mem => List.mem_takeWhile_imp mem
  conv_rhs => rw [← List.takeWhile_append_dropWhile (p := isBlank) (l := text)]
  rw [compact_append, blanks, List.nil_append]

/-- What is trimmed is not written. -/
theorem compact_trim (text : List Char) : compact (trim text) = compact text := by
  rw [← compact_dropWhile text, trim]
  generalize text.dropWhile isBlank = text
  have parted := List.takeWhile_append_dropWhile (p := isBlank) (l := text.reverse)
  have blanks : compact (text.reverse.takeWhile isBlank).reverse = [] :=
    compact_of_blanks fun _ mem => List.mem_takeWhile_imp (List.mem_reverse.mp mem)
  conv_rhs => rw [← List.reverse_reverse text, ← parted]
  rw [List.reverse_append, compact_append, blanks, List.append_nil]

theorem compact_of_trim (h : Inert (trim text)) : compact text = trim text := by
  rw [← compact_trim, h.compact]

end

end Text

open Text (compact trim Spaced)

theorem compact_sign (relation : Relation) : compact relation.sign = relation.sign := by
  cases relation <;> rfl

theorem IsSplit.inert_left {text left right : List Char} {relation : Relation}
    (h : IsSplit text left relation right) : Text.Inert (trim left) := by
  obtain ⟨ws, -, terms⟩ := h.terms
  exact terms ▸ inert_writtenSum ws

theorem IsSplit.inert_right {text left right : List Char} {relation : Relation}
    (h : IsSplit text left relation right) : Text.Inert (trim right) := by
  obtain ⟨w, -, number, -⟩ := h.number
  exact number ▸ w.inert

/-- A split of a text is one of its normal text, with the sides trimmed. -/
theorem IsSplit.compact {text left right : List Char} {relation : Relation}
    (h : IsSplit text left relation right) :
    IsSplit (compact text) (trim left) relation (trim right) := by
  have before := h.inert_left
  have behind := h.inert_right
  refine ⟨?_, ?_, ?_⟩
  · rw [h.parted, Text.compact_append, Text.compact_append, compact_sign,
      Text.compact_of_trim before, Text.compact_of_trim behind]
  · rw [before.trim]
    exact h.terms
  · rw [behind.trim]
    exact h.number

theorem readConstraint_compact {text : List Char} {c : Constraint Float}
    (h : readConstraint text = .ok c) : readConstraint (compact text) = .ok c := by
  obtain ⟨left, right, split, terms, number⟩ := readConstraint_iff.mp h
  refine readConstraint_iff.mpr ⟨trim left, trim right, split.compact, ?_, ?_⟩
  · rw [split.inert_left.trim]
    exact terms
  · rw [split.inert_right.trim]
    exact number

theorem compact_of_readTerms {α : Type} [Scalar α] {text : List Char} {ts : List (Term α)}
    (h : readTerms text = .ok ts) : compact text = text := by
  obtain ⟨ws, -, -, rfl, -⟩ := readTerms_iff.mp h
  exact (inert_writtenSum ws).compact

theorem readTerms_of_objective {α : Type} [Scalar α] {text : String} {direction : Direction}
    {o : Objective α} (h : Objective.ofText text direction = .ok o) :
    readTerms text.toList = .ok o.terms := by
  rw [Objective.ofText, Term.listOfText] at h
  cases read : readTerms (α := α) text.toList with
  | error cause =>
    rw [read] at h
    cases h
  | ok ts =>
    rw [read] at h
    obtain rfl := Except.ok.inj h
    rfl

/-- Normalizing twice is normalizing once, and blanks anywhere in a text make no difference to it.
A text that reads as a constraint reads as the same constraint when it is normalized, and one that
reads as an objective is normal. -/
theorem normalize_of_readable :
    (∀ text : String, normalize (normalize text) = normalize text) ∧
    (∀ text spaced : String, Spaced text.toList spaced.toList →
      normalize spaced = normalize text) ∧
    (∀ (position : Nat) (text : String) (c : Constraint Float),
      Constraint.ofText position text = .ok c →
        Constraint.ofText position (normalize text) = .ok c) ∧
    ∀ (text : String) (direction : Direction) (o : Objective Float),
      Objective.ofText text direction = .ok o → normalize text = text := by
  refine ⟨fun text => ?_, fun text spaced h => ?_, fun position text c read => ?_,
    fun text direction o read => ?_⟩
  · rw [normalize, normalize, String.toList_ofList, Text.compact_compact]
  · rw [normalize, Text.compact_of_spaced h, normalize]
  · rw [Constraint.ofText, mapError_eq_ok_iff] at read ⊢
    rw [normalize, String.toList_ofList]
    exact readConstraint_compact read
  · rw [normalize, compact_of_readTerms (readTerms_of_objective read), String.ofList_toList]

/-- Blanks of three kinds around the sides of a constraint, and one inside of a term. -/
theorem normalize_of_readable_blanks : ∃ c : Constraint Float,
    (Constraint.ofText 2 " 2x-y<=\t1e1\u2003" = .ok c ∧
      Constraint.ofText 2 (normalize " 2x-y<=\t1e1\u2003") = .ok c) ∧
    (Spaced "2x".toList "2\u00a0x ".toList ∧ normalize "2\u00a0x " = normalize "2x") ∧
    normalize (normalize "2 x ≤ 1") = normalize "2 x ≤ 1" ∧
    ∃ o : Objective Float, Objective.ofText "2x-y" .maximize = .ok o ∧ normalize "2x-y" = "2x-y" := by
  obtain ⟨twice, spaced, constraints, objectives⟩ := normalize_of_readable
  have blanks : Spaced "2x".toList "2\u00a0x ".toList :=
    .keep '2' (.blank rfl (.keep 'x' (.blank rfl .nil)))
  have constraint : Constraint.ofText 2 " 2x-y<=\t1e1\u2003" =
      .ok { terms := [⟨2, "x"⟩, ⟨-1, "y"⟩], relation := .atMost, bound := (10 : Float) } := by
    decide +kernel
  have objective : Objective.ofText "2x-y" .maximize =
      .ok { terms := [⟨(2 : Float), "x"⟩, ⟨-1, "y"⟩], direction := .maximize } := by
    decide +kernel
  exact ⟨_, ⟨constraint, constraints 2 _ _ constraint⟩, ⟨blanks, spaced _ _ blanks⟩,
    twice "2 x ≤ 1", _, objective, objectives _ _ _ objective⟩

end Simplex
