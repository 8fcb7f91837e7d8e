import Simplex.Proofs.Basis
import Simplex.Proofs.StandardForm

/-!
# The starting basis

In a starting tableau the slack of each `≤` and the artificial variable of each other constraint is
the unit column of its row (`isBasis_tableau`). `startingBasis` finds exactly these columns
(`startingBasis_tableau`).
-/

namespace Simplex.Problem

/-- The column that holds the one of a row: its slack or its artificial variable. -/
def startColumn (p : Problem Rat) (i : Nat) (relation : Relation) : Nat :=
  match relation with
  | .atMost => (p.freeBefore i).slack
  | .equal | .atLeast => (p.freeBefore i).artificial

def startBasis (p : Problem Rat) (i : Nat) : Option Nat :=
  p.constraints[i]?.map fun c => p.startColumn i c.relation

theorem lookup_single (j k : Nat) (v : Rat) :
    (([(k, v)] : OwnColumns Rat).lookup j).getD 0 = if j = k then v else 0 := by
  rw [List.lookup_cons, List.lookup_nil]
  by_cases same : j = k
  · simp [same]
  · rw [beq_eq_false_iff_ne.mpr same, if_neg same]
    rfl

section
variable {p : Problem Rat} {i : Nat} (hi : i < p.constraints.length)
include hi

theorem startBasis_eq : p.startBasis i = some (p.startColumn i p.constraints[i].relation) := by
  rw [startBasis, List.getElem?_eq_getElem hi, Option.map_some]

theorem lookup_ownOf (j : Nat) :
    ((p.ownOf i p.constraints[i].relation).lookup j).getD 0 =
      if j = p.startColumn i p.constraints[i].relation then 1
      else if p.constraints[i].relation = .atLeast ∧ j = (p.freeBefore i).surplus then -1
      else 0 := by
  cases h : p.constraints[i].relation with
  | atMost =>
    simpa [startColumn, ownOf, FreeColumns.take] using lookup_single j (p.freeBefore i).slack 1
  | equal =>
    simpa [startColumn, ownOf, FreeColumns.take] using lookup_single j (p.freeBefore i).artificial 1
  | atLeast =>
    have before := surplus_lt hi h
    have behind := p.artificialStart_le i
    rw [ownOf, FreeColumns.take, List.lookup_cons]
    by_cases surplus : j = (p.freeBefore i).surplus
    · have other : j ≠ (p.freeBefore i).artificial := by omega
      simp [startColumn, surplus, surplus ▸ other]
    · rw [beq_eq_false_iff_ne.mpr surplus]
      simpa [startColumn, surplus] using lookup_single j (p.freeBefore i).artificial 1

theorem startColumn_inside :
    p.names.length ≤ p.startColumn i p.constraints[i].relation ∧
      p.startColumn i p.constraints[i].relation < (Layout.ofProblem p).rhs := by
  cases h : p.constraints[i].relation with
  | atMost =>
    exact ⟨p.slackStart_le i, lt_of_lt_of_le (slack_lt hi h) (le_trans
      (Layout.surplusStart_le_artificialStart _) (Layout.artificialStart_le_rhs _))⟩
  | equal | atLeast =>
    refine ⟨?_, artificial_lt hi (by rw [h]; decide)⟩
    exact le_trans (Layout.ofProblem p).decision_le_artificialStart (p.artificialStart_le i)

theorem entry_own (phase : Phase) {j : Nat} (low : p.names.length ≤ j)
    (high : j < (Layout.ofProblem p).rhs) :
    (p.tableau phase).entry i j =
      if j = p.startColumn i p.constraints[i].relation then 1
      else if p.constraints[i].relation = .atLeast ∧ j = (p.freeBefore i).surplus then -1
      else 0 := by
  rw [entry_tableau phase hi high, List.getElem?_eq_none low]
  exact lookup_ownOf hi j

end

theorem startColumn_ne {p : Problem Rat} {i k : Nat} (hk : k < p.constraints.length)
    (hi : i < p.constraints.length) (before : k < i) :
    p.startColumn k p.constraints[k].relation ≠ p.startColumn i p.constraints[i].relation := by
  have order : ∀ q : Relation → Bool, q p.constraints[k].relation = true →
      ((p.constraints.map (·.relation)).take k).countP q <
        ((p.constraints.map (·.relation)).take i).countP q := by
    intro q h
    exact countP_take_lt_of_lt (by simpa using hk) before (by simpa using h)
  have slacks : ∀ m (hm : m < p.constraints.length), p.constraints[m].relation = .atMost →
      (p.freeBefore m).slack < (Layout.ofProblem p).artificialStart := fun m hm h =>
    lt_of_lt_of_le (slack_lt hm h) (Layout.surplusStart_le_artificialStart _)
  have artificials := p.artificialStart_le
  have first := slacks k hk
  have second := slacks i hi
  cases h : p.constraints[k].relation <;> cases h' : p.constraints[i].relation
  case atMost.atMost =>
    have less := order (· == .atMost) (by simp [h])
    exact (Nat.add_lt_add_left less _).ne
  case atMost.equal | atMost.atLeast =>
    exact (lt_of_lt_of_le (first h) (artificials i)).ne
  case equal.atMost | atLeast.atMost =>
    exact (lt_of_lt_of_le (second h') (artificials k)).ne'
  all_goals
    have less := order (· != .atMost) (by simp [h])
    exact (Nat.add_lt_add_left less _).ne

theorem isBasis_tableau (p : Problem Rat) (phase : Phase) :
    (p.tableau phase).IsBasis p.startBasis := by
  intro i hi
  rw [constraintCount_tableau] at hi
  rw [startBasis_eq hi]
  obtain ⟨low, high⟩ := startColumn_inside hi
  refine ⟨high, fun k hk => ?_⟩
  rw [constraintCount_tableau] at hk
  rw [entry_own hk phase low high]
  by_cases same : k = i
  · subst same
    rw [if_pos rfl, if_pos rfl]
  · have other : p.startColumn i p.constraints[i].relation ≠
        p.startColumn k p.constraints[k].relation := by
      rcases Nat.lt_or_gt_of_ne same with before | behind
      · exact (startColumn_ne hk hi before).symm
      · exact startColumn_ne hi hk behind
    rw [if_neg other, if_neg same, if_neg]
    rintro ⟨kind, taken⟩
    have surplus := surplus_lt hk kind
    have surplus' := p.surplusStart_le k
    rw [← taken] at surplus surplus'
    cases h : p.constraints[i].relation with
    | atMost =>
      rw [h] at surplus'
      exact absurd surplus' (slack_lt hi h).not_ge
    | equal | atLeast =>
      rw [h] at surplus
      exact absurd surplus (p.artificialStart_le i).not_gt

theorem find?_eq_some_of_unique {β : Type} {l : List β} {q : β → Bool} {a : β} (member : a ∈ l)
    (holds : q a = true) (unique : ∀ b ∈ l, q b = true → b = a) : l.find? q = some a := by
  cases found : l.find? q with
  | none => exact absurd holds (List.find?_eq_none.mp found a member)
  | some b => rw [unique b (List.mem_of_find?_eq_some found) (List.find?_some found)]

theorem startingBasis_tableau (p : Problem Rat) (phase : Phase) :
    (p.tableau phase).startingBasis = (p.tableau phase).basicsOf p.startBasis := by
  rw [Tableau.startingBasis, Tableau.basicsOf]
  apply List.map_congr_left
  intro i hi
  rw [List.mem_range, constraintCount_tableau] at hi
  rw [startBasis_eq hi, layout_tableau]
  obtain ⟨low, high⟩ := startColumn_inside hi
  apply find?_eq_some_of_unique
  · rw [List.mem_append, List.mem_range'_1, List.mem_range'_1]
    cases h : p.constraints[i].relation with
    | atMost => exact Or.inl ⟨p.slackStart_le i, slack_lt hi h⟩
    | equal | atLeast =>
      exact Or.inr ⟨p.artificialStart_le i, artificial_lt hi (by rw [h]; decide)⟩
  · rw [entry_own hi phase low high, if_pos rfl]
    rfl
  · intro j member one
    have inside : p.names.length ≤ j ∧ j < (Layout.ofProblem p).rhs := by
      have order : (Layout.ofProblem p).slackStart = p.names.length := rfl
      have order₁ := (Layout.ofProblem p).slackStart_le_surplusStart
      have order₂ := (Layout.ofProblem p).surplusStart_le_artificialStart
      have order₃ := (Layout.ofProblem p).artificialStart_le_rhs
      have order₄ : (Layout.ofProblem p).surplusStart =
        (Layout.ofProblem p).slackStart + (Layout.ofProblem p).slack := rfl
      have order₅ : (Layout.ofProblem p).rhs =
        (Layout.ofProblem p).artificialStart + (Layout.ofProblem p).artificial := rfl
      rw [List.mem_append, List.mem_range'_1, List.mem_range'_1] at member
      omega
    rw [entry_own hi phase inside.1 inside.2] at one
    by_contra other
    rw [if_neg other] at one
    split at one
    · exact absurd one (by decide)
    · exact absurd one (by decide)

end Simplex.Problem
