import Simplex.Problem.Printer
import Simplex.Problem.Reader
import Simplex.Proofs.InertText
import Simplex.Proofs.ShortestDecimals

/-!
# Written programs read back

A term is written with its sign in front of the magnitude and blanks between; `normalize` takes the
blanks out and what is left is one run of the term grammar, since each term ends where the sign of
the next one stands. So a sum reads back term by term (`readMany_compactTail`), a constraint is cut
at its only comparison sign (`splitRelation_append`), and both read back as they were
(`written_reads_back`).
-/

namespace Simplex

open Decimal (shortest Alike Stops)
open Text (Inert Unmarked)

/-! ### What the reader returns -/

/-- The names that the reader makes: a letter and digits. -/
def IsName (name : String) : Prop :=
  ∃ letter ds, name = String.ofList (letter :: ds) ∧ letter.isAlpha = true ∧
    ∀ d ∈ ds, d.isDigit = true

section
variable {α : Type} [Scalar α] {text rest : List Char}

theorem isName_of_readTerm {t : Term α} (h : readTerm text = .ok (t, rest)) : IsName t.name := by
  unfold readTerm at h
  split at h
  · cases h
  · rename_i coefficient letter tail _
    split at h
    · rename_i alpha
      obtain ⟨rfl, -⟩ := Prod.mk.inj (Except.ok.inj h)
      exact ⟨letter, _, rfl, alpha, fun d mem => List.all_eq_true.mp List.all_takeWhile d mem⟩
    · cases h

theorem isName_of_readMany (text : List Char) :
    ∀ t ∈ (readMany (α := α) text).1, IsName t.name := by
  fun_induction readMany (α := α) text with
  | case1 text stop failed =>
    intro t none
    cases none
  | case2 text t rest read shorter ts stop others ih =>
    rw [others] at ih
    exact List.forall_mem_cons.mpr ⟨isName_of_readTerm read, ih⟩

theorem readMany_of_ok {t : Term α} (h : readTerm text = .ok (t, rest)) :
    readMany text = (t :: (readMany (α := α) rest).1, (readMany (α := α) rest).2) := by
  rw [readMany]
  split
  · rename_i failed
    rw [h] at failed
    cases failed
  · rename_i t' rest' read
    obtain ⟨rfl, rfl⟩ := Prod.mk.inj (Except.ok.inj (read.symm.trans h))
    rfl

theorem readTerms_spec {ts : List (Term α)} (h : readTerms text = .ok ts) :
    ts ≠ [] ∧ ∀ t ∈ ts, IsName t.name := by
  have names := isName_of_readMany (α := α) text
  unfold readTerms at h
  split at h
  · cases h
  · split at h
    · cases h
    · rename_i first read
      obtain ⟨t, rest⟩ := first
      rw [readMany_of_ok read] at names h
      split at h
      · rename_i terms all
        cases h
        rw [← (Prod.mk.inj all).1]
        exact ⟨List.cons_ne_nil _ _, names⟩
      · cases h

theorem readConstraint_spec {c : Constraint α} (h : readConstraint text = .ok c) :
    c.terms ≠ [] ∧ (∀ t ∈ c.terms, IsName t.name) ∧ Scalar.isFinite c.bound = true := by
  unfold readConstraint at h
  split at h
  · cases h
  · split at h
    · cases h
    · split at h
      · cases h
      · rename_i bound number
        split at h
        · cases h
        · rename_i terms read
          cases h
          obtain ⟨present, names⟩ := readTerms_spec read
          exact ⟨present, names, (Option.filter_eq_some_iff.mp number).2⟩

end

/-! ### Terms read back -/

/-- A finite term with a name that the reader makes. -/
structure Term.Readable (t : Term Float) : Prop where
  finite : t.coefficient.isFinite = true
  named : IsName t.name

/-- Terms of one name with equal coefficients. -/
structure Term.Alike (t t' : Term Float) : Prop where
  coefficient : Decimal.Alike t.coefficient t'.coefficient
  name : t.name = t'.name

/-- The sign in front of the first term: a minus sign or none. -/
def firstSign (x : Float) : List Char := if x < 0 then ['-'] else []

/-- The sign in front of a later term. -/
def nextSign (x : Float) : List Char := if x < 0 then ['-'] else ['+']

def Term.compactText (t : Term Float) : List Char := shortest t.coefficient.abs ++ t.name.toList

def compactTail (ts : List (Term Float)) : List Char :=
  ts.flatMap fun t => nextSign t.coefficient ++ t.compactText

/-- The text of a sum without blanks. -/
def compactSum : List (Term Float) → List Char
  | [] => []
  | t :: ts => firstSign t.coefficient ++ (t.compactText ++ compactTail ts)

theorem readSign_written {x : Float} {signs : List Char}
    (written : signs = firstSign x ∨ signs = nextSign x) {d : Char} (digit : d.isDigit = true)
    (ds : List Char) : Decimal.readSign (signs ++ d :: ds) = (decide (x < 0), d :: ds) := by
  by_cases less : x < 0
  · rcases written with rfl | rfl
    · simp [firstSign, less, Decimal.readSign]
    · simp [nextSign, less, Decimal.readSign]
  · rcases written with rfl | rfl
    · rw [firstSign, if_neg less, decide_eq_false less]
      exact Decimal.readSign_signed false digit ds
    · simp [nextSign, less, Decimal.readSign]

/-- The sign and the magnitude of a term are those that were written. -/
theorem readCoefficient_written {x : Float} {signs rest : List Char} (finite : x.isFinite = true)
    (written : signs = firstSign x ∨ signs = nextSign x) (stops : Stops rest) :
    ∃ y, readCoefficient (signs ++ (shortest x.abs ++ rest)) = (y, rest) ∧ Alike y x := by
  obtain ⟨negative, n, k, -, text, is⟩ := Decimal.exists_shortest finite
  refine ⟨_, ?_, is.alike_mul⟩
  obtain ⟨d, ds, begins, digit⟩ := Decimal.exists_cons_positional n k rest
  have magnitude := Decimal.readMagnitude_positional n k stops
  rw [text, readCoefficient, begins, readSign_written written digit]
  rw [begins] at magnitude
  dsimp only
  rw [magnitude]
  by_cases less : x < 0
  · simp only [less, decide_true, if_true]
    rfl
  · simp only [less, decide_false, if_false]
    rfl

theorem stops_of_isAlpha {letter : Char} (alpha : letter.isAlpha = true) (rest : List Char) :
    Stops (letter :: rest) := by
  rintro c ⟨⟩
  exact Text.alpha_spec alpha

section
variable {t : Term Float} {signs rest : List Char}

/-- A term that was written reads back, if a sign or nothing follows. -/
theorem readTerm_written (h : t.Readable)
    (written : signs = firstSign t.coefficient ∨ signs = nextSign t.coefficient)
    (breaks : ∀ c ∈ rest.head?, c.isDigit = false) :
    ∃ t', readTerm (signs ++ (t.compactText ++ rest)) = .ok (t', rest) ∧ t'.Alike t := by
  obtain ⟨letter, ds, name, alpha, digits⟩ := h.named
  obtain ⟨y, read, alike⟩ := readCoefficient_written h.finite written
    (stops_of_isAlpha alpha (ds ++ rest))
  refine ⟨{ coefficient := y, name := t.name }, ?_, alike, rfl⟩
  obtain ⟨taken, left⟩ := Decimal.cut_digits digits breaks
  have text : t.compactText ++ rest = shortest t.coefficient.abs ++ (letter :: (ds ++ rest)) := by
    rw [Term.compactText, name, String.toList_ofList, List.append_assoc]
    rfl
  unfold readTerm
  rw [text, read]
  simp only [alpha, if_true, taken, left, name]

theorem breaks_compactTail (ts : List (Term Float)) :
    ∀ c ∈ (compactTail ts).head?, c.isDigit = false := by
  cases ts with
  | nil =>
    intro c none
    cases none
  | cons t ts =>
    intro c first
    rw [compactTail, List.flatMap_cons, nextSign] at first
    split at first <;> cases first <;> rfl

end

theorem readMany_compactTail {ts : List (Term Float)} (h : ∀ t ∈ ts, t.Readable) :
    ∃ ts', readMany (compactTail ts) = (ts', []) ∧ List.Forall₂ Term.Alike ts' ts := by
  induction ts with
  | nil =>
    refine ⟨[], ?_, .nil⟩
    rw [readMany]
    rfl
  | cons t ts ih =>
    obtain ⟨first, others⟩ := List.forall_mem_cons.mp h
    obtain ⟨ts', read', alike'⟩ := ih others
    -- The digits of the name end where the sign of the next term stands.
    obtain ⟨t', read, alike⟩ := readTerm_written first (Or.inr rfl) (breaks_compactTail ts)
    refine ⟨t' :: ts', ?_, .cons alike alike'⟩
    rw [compactTail, List.flatMap_cons, List.append_assoc]
    show readMany (nextSign t.coefficient ++ (t.compactText ++ compactTail ts)) = _
    rw [readMany_of_ok read, read']

theorem compactSum_ne_nil {ts : List (Term Float)} (some : ts ≠ []) (h : ∀ t ∈ ts, t.Readable) :
    compactSum ts ≠ [] := by
  obtain ⟨t, ts, rfl⟩ := List.exists_cons_of_ne_nil some
  obtain ⟨t', read, -⟩ :=
    readTerm_written (h t List.mem_cons_self) (Or.inl rfl) (breaks_compactTail ts)
  intro none
  rw [compactSum] at none
  rw [none] at read
  cases read

theorem readTerms_compactSum {ts : List (Term Float)} (some : ts ≠ [])
    (h : ∀ t ∈ ts, t.Readable) :
    ∃ ts', readTerms (compactSum ts) = .ok ts' ∧ List.Forall₂ Term.Alike ts' ts := by
  have present := compactSum_ne_nil some h
  obtain ⟨t, ts, rfl⟩ := List.exists_cons_of_ne_nil some
  obtain ⟨first, others⟩ := List.forall_mem_cons.mp h
  obtain ⟨ts', read', alike'⟩ := readMany_compactTail others
  obtain ⟨t', read, alike⟩ := readTerm_written first (Or.inl rfl) (breaks_compactTail ts)
  refine ⟨t' :: ts', ?_, .cons alike alike'⟩
  have all : readMany (compactSum (t :: ts)) = (t' :: ts', []) := by
    rw [compactSum, readMany_of_ok read, read']
  rw [readTerms, if_neg present, all]
  rw [compactSum, read]

/-! ### Blanks -/

theorem inert_positional (n k : Nat) : Inert (Decimal.positional n k) := by
  rw [Decimal.positional_eq]
  refine (Inert.of_digits fun _ => Decimal.isDigit_of_mem_digits).append ?_
  have places := Inert.of_digits fun _ => Decimal.isDigit_of_mem_fraction (n := n) (k := k)
  cases all : Decimal.fraction n k with
  | nil => exact Text.inert_nil
  | cons d ds => exact Inert.cons rfl (all ▸ places)

theorem inert_shortest {x : Float} (finite : x.isFinite = true) :
    Inert (shortest x) ∧ Inert (shortest x.abs) := by
  obtain ⟨negative, n, k, text, text', -⟩ := Decimal.exists_shortest finite
  rw [text, text']
  refine ⟨?_, inert_positional n k⟩
  cases negative
  · exact inert_positional n k
  · exact Inert.cons rfl (inert_positional n k)

theorem IsName.inert {name : String} (h : IsName name) : Inert name.toList := by
  obtain ⟨letter, ds, rfl, alpha, digits⟩ := h
  rw [String.toList_ofList]
  exact Inert.cons (Text.isInert_of_isAlpha alpha) (Inert.of_digits digits)

theorem Term.Readable.inert {t : Term Float} (h : t.Readable) : Inert t.compactText :=
  (inert_shortest h.finite).2.append h.named.inert

theorem Term.Readable.compact {t : Term Float} (h : t.Readable) :
    Text.compact t.unsignedText.toList = t.compactText := by
  have blank : Text.compact " ".toList = [] := by decide
  rw [Term.unsignedText, String.toList_append, String.toList_append, Text.compact_append,
    Text.compact_append, blank, List.append_nil, h.named.inert.compact, Decimal.shortestText,
    String.toList_ofList, (inert_shortest h.finite).2.compact, Term.compactText]

theorem inert_firstSign (x : Float) : Inert (firstSign x) := by
  unfold firstSign
  split
  · exact Inert.cons rfl Text.inert_nil
  · exact Text.inert_nil

theorem inert_nextSign (x : Float) : Inert (nextSign x) := by
  unfold nextSign
  split <;> exact Inert.cons rfl Text.inert_nil

section
variable {ts : List (Term Float)}

theorem inert_compactTail (h : ∀ t ∈ ts, t.Readable) : Inert (compactTail ts) := by
  intro c mem
  obtain ⟨t, among, mem⟩ := List.mem_flatMap.mp mem
  exact ((inert_nextSign _).append (h t among).inert) c mem

theorem inert_compactSum (h : ∀ t ∈ ts, t.Readable) : Inert (compactSum ts) := by
  cases ts with
  | nil => exact Text.inert_nil
  | cons t ts =>
    obtain ⟨first, others⟩ := List.forall_mem_cons.mp h
    exact (inert_firstSign _).append (first.inert.append (inert_compactTail others))

theorem Term.Readable.compact_nextText {t : Term Float} (h : t.Readable) :
    Text.compact t.nextText.toList = nextSign t.coefficient ++ t.compactText := by
  rw [Term.nextText, String.toList_append, Text.compact_append, h.compact, nextSign]
  split <;> rfl

theorem compact_join_nextText (h : ∀ t ∈ ts, t.Readable) :
    Text.compact (String.join (ts.map Term.nextText)).toList = compactTail ts := by
  induction ts with
  | nil => rfl
  | cons t ts ih =>
    obtain ⟨first, others⟩ := List.forall_mem_cons.mp h
    rw [List.map_cons, String.join_cons, String.toList_append, Text.compact_append,
      first.compact_nextText, ih others]
    rfl

theorem compact_sumText (h : ∀ t ∈ ts, t.Readable) :
    Text.compact (Term.sumText ts).toList = compactSum ts := by
  cases ts with
  | nil => rfl
  | cons t ts =>
    obtain ⟨first, others⟩ := List.forall_mem_cons.mp h
    have sign : Text.compact (if t.coefficient < 0 then "-" else "").toList =
        firstSign t.coefficient := by
      rw [firstSign]
      split <;> rfl
    rw [Term.sumText, String.toList_append, String.toList_append, Text.compact_append,
      Text.compact_append, sign, first.compact, compact_join_nextText others, List.append_assoc]
    rfl

end

/-! ### Constraints -/

theorem splitRelation_append {left right : List Char} (hl : Unmarked left) (hr : Unmarked right)
    (relation : Relation) :
    splitRelation (left ++ (relation.sign ++ right)) = some (left, relation, right) := by
  have before : ∀ c ∈ ['<', '>', '='], c ∉ left := fun c sign mem => hl c mem sign
  have behind : ∀ c ∈ ['<', '>', '='], c ∉ right := fun c sign mem => hr c mem sign
  have absent : ∀ c ∈ ['<', '>', '='], c ∉ relation.sign →
      c ∉ left ++ (relation.sign ++ right) := by
    intro c sign other
    simp [before c sign, behind c sign, other]
  cases relation with
  | atMost =>
    have found : Text.splitOnce ['<', '='] (left ++ (['<', '='] ++ right)) = some (left, right) :=
      Text.splitOnce_append (before '<' (by decide))
    simp only [splitRelation, Relation.searchOrder, Relation.sign, List.findSome?_cons, found,
      Option.map_some]
  | atLeast =>
    have passed : Text.splitOnce ['<', '='] (left ++ (['>', '='] ++ right)) = none :=
      Text.splitOnce_eq_none (absent '<' (by decide) (by decide))
    have found : Text.splitOnce ['>', '='] (left ++ (['>', '='] ++ right)) = some (left, right) :=
      Text.splitOnce_append (before '>' (by decide))
    simp only [splitRelation, Relation.searchOrder, Relation.sign, List.findSome?_cons, passed,
      found, Option.map_some, Option.map_none]
  | equal =>
    have passed : Text.splitOnce ['<', '='] (left ++ (['='] ++ right)) = none :=
      Text.splitOnce_eq_none (absent '<' (by decide) (by decide))
    have passed' : Text.splitOnce ['>', '='] (left ++ (['='] ++ right)) = none :=
      Text.splitOnce_eq_none (absent '>' (by decide) (by decide))
    have found : Text.splitOnce ['='] (left ++ (['='] ++ right)) = some (left, right) :=
      Text.splitOnce_append (before '=' (by decide))
    simp only [splitRelation, Relation.searchOrder, Relation.sign, List.findSome?_cons, passed,
      passed', found, Option.map_some, Option.map_none]

theorem compact_relation (relation : Relation) :
    Text.compact relation.text.toList = relation.sign := by
  cases relation <;> decide

theorem compact_constraint {c : Constraint Float} (h : ∀ t ∈ c.terms, t.Readable)
    (finite : c.bound.isFinite = true) :
    Text.compact c.text.toList = compactSum c.terms ++ (c.relation.sign ++ shortest c.bound) := by
  have blank : Text.compact " ".toList = [] := by decide
  rw [Constraint.text]
  simp only [String.toList_append, Text.compact_append, blank, List.nil_append, compact_sumText h,
    compact_relation, Decimal.shortestText, String.toList_ofList,
    (inert_shortest finite).1.compact, List.append_assoc]

theorem readBound_shortest {x : Float} (finite : x.isFinite = true) :
    ∃ y, readBound (shortest x) = some y ∧ Alike y x := by
  obtain ⟨n, read, alike⟩ := Decimal.ofText?_shortest finite
  refine ⟨n.toScalar, ?_, alike⟩
  rw [readBound, read]
  exact Option.filter_some_pos alike.isFinite

theorem readConstraint_written {c : Constraint Float} (some : c.terms ≠ [])
    (h : ∀ t ∈ c.terms, t.Readable) (finite : c.bound.isFinite = true) :
    ∃ c', readConstraint (compactSum c.terms ++ (c.relation.sign ++ shortest c.bound)) = .ok c' ∧
      List.Forall₂ Term.Alike c'.terms c.terms ∧ c'.relation = c.relation ∧
      Alike c'.bound c.bound := by
  obtain ⟨ts, read, alike⟩ := readTerms_compactSum some h
  obtain ⟨y, read', alike'⟩ := readBound_shortest finite
  refine ⟨{ terms := ts, relation := c.relation, bound := y }, ?_, alike, rfl, alike'⟩
  have left := inert_compactSum h
  have right := (inert_shortest finite).1
  rw [readConstraint, splitRelation_append left.unmarked right.unmarked]
  dsimp only
  rw [left.trim, right.trim, if_neg (compactSum_ne_nil some h), read', read]

/-! ### What was read reads back -/

theorem mapError_eq_ok_iff {α β γ : Type} {f : β → γ} {x : Except β α} {a : α} :
    x.mapError f = .ok a ↔ x = .ok a := by
  cases x with
  | error cause => simp only [Except.mapError, reduceCtorEq]
  | ok value => simp only [Except.mapError, Except.ok.injEq]

theorem Term.Alike.beq {t' t : Term Float} (h : t'.Alike t) : (t' == t) = true := by
  show (t'.coefficient == t.coefficient && t'.name == t.name) = true
  rw [h.coefficient.beq, h.name, beq_self_eq_true]
  rfl

theorem beq_of_alike {ts' ts : List (Term Float)} (h : List.Forall₂ Term.Alike ts' ts) :
    (ts' == ts) = true := by
  induction h with
  | nil => rfl
  | cons first others ih =>
    rw [List.cons_beq_cons, first.beq, ih]
    rfl

/-- Whatever the reader returns with finite coefficients is written so that, normalized, it reads
back as an equal one, at every position. -/
theorem written_reads_back :
    (∀ position text (c : Constraint Float), Constraint.ofText position text = .ok c →
      (∀ t ∈ c.terms, t.coefficient.isFinite = true) →
      ∀ position', ∃ c', Constraint.ofText position' (normalize c.text) = .ok c' ∧
        (c' == c) = true) ∧
    ∀ text direction (o : Objective Float), Objective.ofText text direction = .ok o →
      (∀ t ∈ o.terms, t.coefficient.isFinite = true) →
      ∃ ts, Term.listOfText (normalize (Term.sumText o.terms)) = .ok ts ∧
        (ts == o.terms) = true := by
  constructor
  · intro position text c parsed finite position'
    obtain ⟨present, names, bounded⟩ := readConstraint_spec (mapError_eq_ok_iff.mp parsed)
    have readable : ∀ t ∈ c.terms, t.Readable := fun t mem => ⟨finite t mem, names t mem⟩
    obtain ⟨c', read, terms, relation, bound⟩ := readConstraint_written present readable bounded
    refine ⟨c', mapError_eq_ok_iff.mpr ?_, ?_⟩
    · rw [normalize, String.toList_ofList, compact_constraint readable bounded, read]
    · show (c'.terms == c.terms && (c'.relation == c.relation && c'.bound == c.bound)) = true
      rw [beq_of_alike terms, relation, bound.beq]
      cases c.relation <;> rfl
  · intro text direction o parsed finite
    obtain ⟨ts, read, rfl⟩ :
        ∃ ts, readTerms text.toList = .ok ts ∧ { terms := ts, direction } = o := by
      rw [Objective.ofText, Term.listOfText] at parsed
      cases read : readTerms (α := Float) text.toList with
      | error cause =>
        rw [read] at parsed
        cases parsed
      | ok ts =>
        rw [read] at parsed
        exact ⟨ts, rfl, Except.ok.inj parsed⟩
    obtain ⟨present, names⟩ := readTerms_spec read
    have readable : ∀ t ∈ ts, t.Readable := fun t mem => ⟨finite t mem, names t mem⟩
    obtain ⟨ts', read', alike⟩ := readTerms_compactSum present readable
    refine ⟨ts', mapError_eq_ok_iff.mpr ?_, beq_of_alike alike⟩
    rw [normalize, String.toList_ofList, compact_sumText readable, read']

/-- A negative zero, which reads back as zero, and a negative bound. -/
def zeroAndBound : Constraint Float where
  terms := [{ coefficient := -0.0, name := "x" }, { coefficient := 2.5, name := "y12" }]
  relation := .atLeast
  bound := -1e-7

def twiceTheSame : Objective Float where
  terms := [{ coefficient := -0.3, name := "x" }, { coefficient := 1, name := "x" }]
  direction := .minimize

theorem written_reads_back_signs :
    (Constraint.ofText 1 "-0x+2.5y12>=-1e-7" = .ok zeroAndBound ∧
      (∀ t ∈ zeroAndBound.terms, t.coefficient.isFinite = true) ∧
      ∃ c, Constraint.ofText 3 (normalize zeroAndBound.text) = .ok c ∧ (c == zeroAndBound) = true) ∧
    (Objective.ofText "-.3x+x" .minimize = .ok twiceTheSame ∧
      (∀ t ∈ twiceTheSame.terms, t.coefficient.isFinite = true) ∧
      ∃ ts, Term.listOfText (normalize (Term.sumText twiceTheSame.terms)) = .ok ts ∧
        (ts == twiceTheSame.terms) = true) := by
  have parsed : Constraint.ofText 1 "-0x+2.5y12>=-1e-7" = .ok zeroAndBound := by decide +kernel
  have finite : ∀ t ∈ zeroAndBound.terms, t.coefficient.isFinite = true := by decide +kernel
  have parsed' : Objective.ofText "-.3x+x" .minimize = .ok twiceTheSame := by decide +kernel
  have finite' : ∀ t ∈ twiceTheSame.terms, t.coefficient.isFinite = true := by decide +kernel
  exact ⟨⟨parsed, finite, written_reads_back.1 1 _ _ parsed finite 3⟩,
    parsed', finite', written_reads_back.2 _ _ _ parsed' finite'⟩

end Simplex
