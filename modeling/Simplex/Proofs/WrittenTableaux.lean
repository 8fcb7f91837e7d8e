import Simplex.Solver
import Simplex.Proofs.Course
import Simplex.Proofs.Rereading
import Simplex.Proofs.RoundedDecimals

/-!
# Written tableaux

The words of a written tableau are the texts of its entries (`words_tableau`), and the last word of
the first line of a written solution is that of its optimal value (`words_firstLine`). Each is the
sign of the double and its magnitude in hundredths, rounded to nearest (`exists_cellText`). A zero
loses its sign, but a negative double that rounds to zero keeps it
(`cellText_eq_negativeZero_iff`).
-/

namespace Simplex

namespace Text

/-! ### Words -/

/-- The runs of characters that are not blank. -/
def runs (text : List Char) : List (List Char) := (text.splitOnP isBlank).filter (· ≠ [])

/-- The words of a text: what stands between blanks and ends of lines. -/
def words (text : String) : List String := (runs text.toList).map String.ofList

def firstLine (text : String) : String := String.ofList (text.toList.takeWhile (· ≠ '\n'))

theorem runs_append {c : Char} (blank : isBlank c = true) (front back : List Char) :
    runs (front ++ c :: back) = runs front ++ runs back := by
  rw [runs, List.splitOnP_append_cons _ _ blank, List.filter_append]
  rfl

theorem runs_of_inert {text : List Char} (inert : Inert text) (some : text ≠ []) :
    runs text = [text] := by
  rw [runs, List.splitOnP_eq_singleton fun c member => (inert_spec (inert c member)).2.1]
  exact List.filter_cons_of_pos (by simpa using some)

theorem runs_intercalate {texts : List (List Char)}
    (inert : ∀ text ∈ texts, Inert text ∧ text ≠ []) :
    runs ([' '].intercalate texts) = texts := by
  induction texts with
  | nil => rfl
  | cons text rest ih =>
    obtain ⟨first, others⟩ := List.forall_mem_cons.mp inert
    cases rest with
    | nil => simpa [List.intercalate] using runs_of_inert first.1 first.2
    | cons next rest =>
      have joined : [' '].intercalate (text :: next :: rest) =
          text ++ ' ' :: [' '].intercalate (next :: rest) := by
        simp [List.intercalate]
      rw [joined, runs_append rfl, runs_of_inert first.1 first.2, ih others]
      rfl

theorem mem_of_mem_splitOnP {p : Char → Bool} {text : List Char} :
    ∀ run ∈ text.splitOnP p, ∀ c ∈ run, c ∈ text := by
  induction text with
  | nil => simp
  | cons d text ih =>
    obtain ⟨first, others, cut⟩ := List.exists_cons_of_ne_nil (List.splitOnP_ne_nil p text)
    rw [cut] at ih
    rw [List.splitOnP_cons_eq_if_modifyHead, cut]
    obtain ⟨own, later⟩ := List.forall_mem_cons.mp ih
    have behind : ∀ run ∈ others, ∀ c ∈ run, c ∈ d :: text :=
      fun run member c mem => List.mem_cons_of_mem d (later run member c mem)
    split
    · exact List.forall_mem_cons.mpr ⟨List.forall_mem_nil _, List.forall_mem_cons.mpr
        ⟨fun c mem => List.mem_cons_of_mem d (own c mem), behind⟩⟩
    · refine List.forall_mem_cons.mpr ⟨List.forall_mem_cons.mpr ⟨List.mem_cons_self, ?_⟩, behind⟩
      exact fun c mem => List.mem_cons_of_mem d (own c mem)

theorem toList_append_line (front back : String) :
    (front ++ "\n" ++ back).toList = front.toList ++ '\n' :: back.toList := by
  rw [String.toList_append, String.toList_append, List.append_assoc]
  rfl

/-- The end of a line ends a word. -/
theorem words_append_line (front back : String) :
    words (front ++ "\n" ++ back) = words front ++ words back := by
  rw [words, toList_append_line, runs_append rfl, List.map_append]
  rfl

theorem firstLine_append {line : String} (whole : '\n' ∉ line.toList) (rest : String) :
    firstLine (line ++ "\n" ++ rest) = line := by
  have within : ∀ c ∈ line.toList, decide (c ≠ '\n') = true := fun c mem =>
    decide_eq_true (ne_of_mem_of_not_mem mem whole)
  rw [firstLine, toList_append_line, List.takeWhile_append_of_pos within,
    List.takeWhile_cons_of_neg (by simp), List.append_nil, String.ofList_toList]

/-- A word is made of characters of its text. -/
theorem mem_of_mem_words {word text : String} (member : word ∈ words text) :
    ∀ c ∈ word.toList, c ∈ text.toList := by
  obtain ⟨run, found, rfl⟩ := List.mem_map.mp member
  rw [String.toList_ofList]
  exact mem_of_mem_splitOnP run (List.mem_filter.mp found).1

end Text

open Decimal (fixed positional signed)
open Double (Nearest value)
open Text (Inert isInert runs runs_append words firstLine)

/-! ### Cells -/

theorem inert_fixed (k : Nat) (x : Float) : Inert (fixed k x) ∧ fixed k x ≠ [] := by
  have signs : ∀ (negative : Bool) (text : List Char), Inert text → text ≠ [] →
      Inert (signed negative text) ∧ signed negative text ≠ [] := by
    intro negative text inert some
    cases negative
    · exact ⟨inert, some⟩
    · exact ⟨Inert.cons rfl inert, List.cons_ne_nil _ _⟩
  have three : ∀ {a b c : Char}, isInert a = true → isInert b = true → isInert c = true →
      Inert [a, b, c] :=
    fun first second third => .cons first (.cons second (.cons third Text.inert_nil))
  unfold fixed
  split
  · exact ⟨three rfl rfl rfl, List.cons_ne_nil _ _⟩
  · exact signs _ _ (three rfl rfl rfl) (List.cons_ne_nil _ _)
  · refine signs _ _ (inert_positional _ _) ?_
    rw [Decimal.positional_eq]
    exact List.append_ne_nil_of_left_ne_nil (Decimal.digits_ne_nil _) _

theorem toList_cellText (v : Float) : (cellText v).toList = fixed 2 (v + 0) :=
  String.toList_ofList

/-- Negative, and no more than half a hundredth away from zero. -/
def IsSlightlyNegative (v : Float) : Prop := -1 / 200 ≤ value v ∧ value v < 0

instance (v : Float) : Decidable (IsSlightlyNegative v) :=
  inferInstanceAs (Decidable (_ ∧ _))

/-- Zero with a minus sign. -/
def negativeZero : String := "-0.00"

section
variable {v : Float}

/-- The text shows the hundredths that are nearest to the magnitude. -/
theorem exists_fixedText {negative : Bool} {m : Nat} {e : Int}
    (apart : Decimal.parts v = .finite negative m e) :
    ∃ n, Nearest (100 * |value v|) n ∧
      Decimal.fixedText 2 v = String.ofList (signed negative (positional n 2)) := by
  obtain ⟨n, nearest, text⟩ := Decimal.exists_fixed apart 2
  norm_num at nearest
  exact ⟨n, nearest, congrArg String.ofList text⟩

/-- A cell has the sign of the double, which a zero has lost. -/
theorem exists_cellText (finite : v.isFinite = true) :
    ∃ n, Nearest (100 * |value v|) n ∧
      cellText v = String.ofList (signed (decide (value v < 0)) (positional n 2)) := by
  obtain ⟨m, e, apart, size⟩ := Double.exists_parts_add_zero finite
  obtain ⟨n, nearest, text⟩ := exists_fixedText apart
  rw [Decimal.abs_value_of_parts apart, ← size] at nearest
  exact ⟨n, nearest, text⟩

/-- A number above zero has no sign. -/
theorem exists_fixedText_of_pos (finite : v.isFinite = true) (pos : 0 < v) :
    ∃ n, Nearest (100 * value v) n ∧ Decimal.fixedText 2 v = String.ofList (positional n 2) := by
  have zero : value 0 = 0 := by decide +kernel
  rw [Double.lt_iff_of_isFinite rfl finite, zero] at pos
  rcases Double.cases_of_isFinite finite with ⟨n, zero, -⟩ | ⟨n, m, e, denotes, apart⟩
  · exact absurd (Double.value_of_isZero zero) pos.ne'
  · cases n
    · obtain ⟨n, nearest, text⟩ := exists_fixedText apart
      rw [abs_of_pos pos] at nearest
      exact ⟨n, nearest, text⟩
    · exact absurd denotes.value_neg pos.not_gt

theorem ofList_signed_eq_negativeZero_iff {negative : Bool} {n : Nat} :
    String.ofList (signed negative (positional n 2)) = negativeZero ↔ negative = true ∧ n = 0 := by
  have zero : negativeZero = String.ofList (signed true (positional 0 2)) := by decide
  rw [zero, String.ofList_inj, Decimal.signed_positional_inj]

theorem cellText_eq_negativeZero_iff (finite : v.isFinite = true) :
    cellText v = negativeZero ↔ IsSlightlyNegative v := by
  obtain ⟨n, nearest, text⟩ := exists_cellText finite
  rw [text, ofList_signed_eq_negativeZero_iff, decide_eq_true_iff, nearest.eq_zero_iff,
    IsSlightlyNegative, and_comm]
  refine and_congr_left fun negative => ?_
  rw [abs_of_neg negative]
  constructor <;> intro bound <;> linarith

end

/-! ### Tableaux, solutions and traces -/

theorem toList_rowText (row : List Float) :
    (Tableau.rowText row).toList =
      [' '].intercalate (row.map fun v => (cellText v).toList) ++ ['\n'] := by
  rw [Tableau.rowText, String.toList_append, String.toList_intercalate, List.map_map]
  rfl

theorem runs_rowText_append (row : List Float) (rest : List Char) :
    runs ((Tableau.rowText row).toList ++ rest) =
      (row.map fun v => (cellText v).toList) ++ runs rest := by
  have inert : ∀ text ∈ row.map fun v => (cellText v).toList, Inert text ∧ text ≠ [] := by
    refine List.forall_mem_map.mpr fun v _ => ?_
    rw [toList_cellText]
    exact inert_fixed 2 (v + 0)
  rw [toList_rowText, List.append_assoc, List.singleton_append, runs_append rfl,
    Text.runs_intercalate inert]

/-- The words of a written tableau are its cells, row by row. -/
theorem words_tableau (t : Tableau Float) : words t.text = t.rows.flatten.map cellText := by
  have cells : ∀ rows : List (List Float),
      runs ((rows.map Tableau.rowText).flatMap String.toList) =
        rows.flatten.map fun v => (cellText v).toList := by
    intro rows
    -- the end of a line stands between two rows as a blank does between two cells
    induction rows with
    | nil => rfl
    | cons row rows ih =>
      rw [List.map_cons, List.flatMap_cons, runs_rowText_append, ih, List.flatten_cons,
        List.map_append]
  rw [words, Tableau.text, String.toList_join, cells, List.map_map]
  exact List.map_congr_left fun v _ => String.ofList_toList

/-- The first line of a written solution has its optimal value as the last of three words. -/
theorem words_firstLine (s : Solution Float) :
    words (firstLine s.text) = ["Optimal", "value:", cellText s.objective] := by
  obtain ⟨inert, some⟩ := inert_fixed 2 (s.objective + 0)
  have label : "Optimal value: ".toList = "Optimal value:".toList ++ [' '] := by decide +kernel
  have line : ("Optimal value: " ++ cellText s.objective).toList =
      "Optimal value:".toList ++ ' ' :: fixed 2 (s.objective + 0) := by
    rw [String.toList_append, toList_cellText, label, List.append_assoc, List.singleton_append]
  have whole : '\n' ∉ ("Optimal value: " ++ cellText s.objective).toList := by
    rw [line]
    refine fun mem => (List.mem_append.mp mem).elim (by decide +kernel) fun mem => ?_
    rcases List.mem_cons.mp mem with same | within
    · cases same
    · cases (Text.inert_spec (inert _ within)).2.1
  have first : firstLine s.text = "Optimal value: " ++ cellText s.objective :=
    Text.firstLine_append whole _
  have two : runs "Optimal value:".toList = ["Optimal".toList, "value:".toList] := by
    decide +kernel
  rw [words, first, line, runs_append rfl, Text.runs_of_inert inert some, two]
  simp only [List.cons_append, List.nil_append, List.map_cons, List.map_nil, String.ofList_toList]
  rfl

section
variable {event : Event Float} {phase : Phase} {t : Tableau Float}

/-- An event that shows a tableau writes a line without a point in front of it. -/
theorem exists_heading (shown : event.tableau? = some (phase, t)) :
    ∃ heading, event.text = heading ++ "\n" ++ t.text ++ "\n" ∧ '.' ∉ heading.toList := by
  cases event with
  | initial p t' =>
    cases shown
    cases phase
    · exact ⟨"Phase 1 - initial simplex tableau (with artificial variables):", rfl, by decide⟩
    · exact ⟨"Phase 2 - solving with the original objective function:", rfl, by decide⟩
  | iteration p number t' =>
    cases shown
    -- the end of this line is part of the text behind the phase
    have closed : ∀ front : String, front ++ "):\n" = front ++ "):" ++ "\n" := fun front => by
      have cut : "):\n" = "):" ++ "\n" := by decide +kernel
      rw [cut]
      exact String.append_assoc.symm
    refine ⟨_, congrArg (· ++ t.text ++ "\n") (closed _), ?_⟩
    have digits : ∀ n : Nat, '.' ∉ Nat.toDigits 10 n := fun n mem =>
      Bool.false_ne_true (Decimal.isDigit_of_mem_digits mem)
    simp only [String.toList_append, Nat.toString_eq_repr, Nat.toList_repr, List.mem_append, digits,
      or_false]
    decide
  | _ => cases shown

theorem exists_words_event (shown : event.tableau? = some (phase, t)) :
    ∃ heading, words event.text = heading ++ words t.text ∧
      ∀ word ∈ heading, '.' ∉ word.toList := by
  obtain ⟨heading, text, pointless⟩ := exists_heading shown
  refine ⟨words heading, ?_, fun word member mem => pointless (Text.mem_of_mem_words member _ mem)⟩
  have ended : event.text = heading ++ "\n" ++ t.text ++ "\n" ++ "" := by
    rw [text, String.append_empty]
  rw [ended, Text.words_append_line, Text.words_append_line]
  exact List.append_nil _

end

section
variable {t : Tableau Float} {s : Solution Float}

theorem negativeZero_mem_words_tableau (finite : ∀ v ∈ t.rows.flatten, v.isFinite = true) :
    negativeZero ∈ words t.text ↔ ∃ v ∈ t.rows.flatten, IsSlightlyNegative v := by
  rw [words_tableau, List.mem_map]
  exact exists_congr fun v => and_congr_right fun member =>
    cellText_eq_negativeZero_iff (finite v member)

theorem negativeZero_mem_words_firstLine (finite : s.objective.isFinite = true) :
    negativeZero ∈ words (firstLine s.text) ↔ IsSlightlyNegative s.objective := by
  have first : negativeZero ≠ "Optimal" := by decide
  have second : negativeZero ≠ "value:" := by decide
  rw [words_firstLine, List.mem_cons, List.mem_cons, List.mem_singleton,
    ← cellText_eq_negativeZero_iff finite]
  simp only [first, second, false_or]
  exact eq_comm

/-- The numbers of a written tableau, alone or in a trace, and the last word of the first line of a
written solution are signs and hundredths. One of them is a zero with a sign just if its double is
slightly negative; the lines of the variables above zero never show one. -/
theorem negativeZero_mem_words_iff (entries : ∀ v ∈ t.rows.flatten, v.isFinite = true)
    (objective : s.objective.isFinite = true) :
    (words t.text = t.rows.flatten.map cellText ∧
      words (firstLine s.text) = ["Optimal", "value:", cellText s.objective] ∧
      (∀ (phase : Phase) (event : Event Float), event.tableau? = some (phase, t) →
        ∃ heading, words event.text = heading ++ words t.text ∧
          ∀ word ∈ heading, '.' ∉ word.toList) ∧
      ∀ v ∈ s.objective :: t.rows.flatten, ∃ n, Nearest (100 * |value v|) n ∧
        cellText v = String.ofList (signed (decide (value v < 0)) (positional n 2))) ∧
    ((negativeZero ∈ words t.text ↔ ∃ v ∈ t.rows.flatten, IsSlightlyNegative v) ∧
      (negativeZero ∈ words (firstLine s.text) ↔ IsSlightlyNegative s.objective) ∧
      ∀ (name : String) (v : Float), (name, v) ∈ s.positiveValues → v.isFinite = true →
        Decimal.fixedText 2 v ≠ negativeZero) := by
  refine ⟨⟨words_tableau t, words_firstLine s, fun _ _ shown => exists_words_event shown, ?_⟩,
    negativeZero_mem_words_tableau entries, negativeZero_mem_words_firstLine objective, ?_⟩
  · exact List.forall_mem_cons.mpr
      ⟨exists_cellText objective, fun v member => exists_cellText (entries v member)⟩
  · intro name v member finite
    have pos : 0 < v := of_decide_eq_true (List.mem_filter.mp member).2
    obtain ⟨n, -, text⟩ := exists_fixedText_of_pos finite pos
    rw [text]
    change String.ofList (signed false (positional n 2)) ≠ negativeZero
    exact fun same => Bool.false_ne_true (ofList_signed_eq_negativeZero_iff.mp same).1

end

/-- The tableau of a small loss: `x1` is basic, and its value is worth `-0.001`. -/
def smallLoss : Tableau Float where
  layout := { decision := 1, slack := 0, surplus := 1, artificial := 0 }
  rows := [[1, -1, 1], [0, 0.001, -0.001]]
  rows_ne_nil := by simp
  length_of_mem := by decide +kernel

def smallLossSolution : Solution Float where
  objective := -0.001
  values := [("x1", 1)]

/-- A loss of a thousandth is written as a zero with a sign, in its tableau and as the optimal
value. -/
theorem negativeZero_mem_words_iff_smallLoss :
    words smallLoss.text = ["1.00", "-1.00", "1.00", "0.00", "0.00", negativeZero] ∧
      words (firstLine smallLossSolution.text) = ["Optimal", "value:", negativeZero] ∧
      negativeZero ∈ words smallLoss.text := by
  have entries : ∀ v ∈ smallLoss.rows.flatten, v.isFinite = true := by decide +kernel
  have objective : smallLossSolution.objective.isFinite = true := by decide +kernel
  obtain ⟨⟨cells, line, -⟩, tableau, -⟩ := negativeZero_mem_words_iff entries objective
  refine ⟨?_, ?_, tableau.mpr (by decide +kernel)⟩
  · rw [cells]
    decide +kernel
  · rw [line]
    decide +kernel

/-- Such a tableau and such a solution come of a run. -/
theorem smallLoss_written :
    Yields (Solver.solve {} "-0.001x1" ["x1>=1"] .maximize) (fun report =>
      .initial .two smallLoss ∈ report.trace ∧ report.solution = smallLossSolution) ∧
    smallLoss.text = "1.00 -1.00 1.00\n0.00 0.00 -0.00\n" ∧
    smallLossSolution.text = "Optimal value: -0.00\nx1: 1.00\n" ∧
    ¬ ∀ (t : Tableau Float) (s : Solution Float), (∀ v ∈ t.rows.flatten, v.isFinite = true) →
      s.objective.isFinite = true →
        negativeZero ∉ words t.text ∧ negativeZero ∉ words (firstLine s.text) := by
  refine ⟨by decide +kernel, by decide +kernel, by decide +kernel, fun claimed => ?_⟩
  have absent := claimed smallLoss smallLossSolution (by decide +kernel) (by decide +kernel)
  exact absent.2 (by decide +kernel)

end Simplex
