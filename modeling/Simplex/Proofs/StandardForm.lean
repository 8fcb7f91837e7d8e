import Simplex.Proofs.Assignment
import Simplex.Proofs.System

/-!
# Starting tableaux as systems

The constraint rows of a starting tableau are the constraints, each with a slack, a surplus or an
artificial variable of its own (`residual_tableau`), and the objective row is the sum of the
artificial variables or the costs (`objective_tableau`).
-/

namespace Simplex

theorem sum_range_eq_sum_map {β : Type} {l : List β} {f : Nat → Rat} {g : β → Rat}
    (h : ∀ j (hj : j < l.length), f j = g l[j]) :
    ∑ j ∈ Finset.range l.length, f j = (l.map g).sum := by
  rw [Finset.sum_range, ← Fin.sum_univ_fun_getElem]
  exact Finset.sum_congr rfl fun j _ => h j j.isLt

/-! ### The columns of each row -/

theorem countP_take_lt {β : Type} {p : β → Bool} {l : List β} {i : Nat} (hi : i < l.length)
    (h : p l[i] = true) : (l.take i).countP p < l.countP p := by
  have split : l = l.take i ++ l[i] :: l.drop (i + 1) := by
    rw [List.getElem_cons_drop, List.take_append_drop]
  have total := congrArg (List.countP p) split
  rw [List.countP_append, List.countP_cons_of_pos h] at total
  omega

theorem countP_take_lt_of_lt {β : Type} {p : β → Bool} {l : List β} {i k : Nat}
    (hk : k < l.length) (before : k < i) (h : p l[k] = true) :
    (l.take k).countP p < (l.take i).countP p := by
  have inside : k < (l.take i).length := by
    rw [List.length_take]
    omega
  have less := countP_take_lt (p := p) inside (by rw [List.getElem_take]; exact h)
  rwa [List.take_take, Nat.min_eq_left before.le] at less

theorem getElem?_filter_countP {β : Type} {p : β → Bool} {l : List β} {i : Nat}
    (hi : i < l.length) (h : p l[i] = true) : (l.filter p)[(l.take i).countP p]? = some l[i] := by
  have split : l.filter p = (l.take i).filter p ++ l[i] :: (l.drop (i + 1)).filter p := by
    conv_lhs => rw [← List.take_append_drop i l, ← List.getElem_cons_drop hi, List.filter_append,
      List.filter_cons_of_pos h]
  rw [split, List.countP_eq_length_filter, List.getElem?_append_right (Nat.le_refl _),
    Nat.sub_self]
  rfl

instance instLawfulBEqRelation : LawfulBEq Relation where
  eq_of_beq {a b} := by cases a <;> cases b <;> decide
  rfl {a} := by cases a <;> decide

theorem Layout.slackStart_le_surplusStart (l : Layout) : l.slackStart ≤ l.surplusStart :=
  Nat.le_add_right _ _

theorem Layout.surplusStart_le_artificialStart (l : Layout) : l.surplusStart ≤ l.artificialStart :=
  Nat.le_add_right _ _

namespace FreeColumns

/-- What is free behind rows with these relations. -/
def behind (free : FreeColumns) (relations : List Relation) : FreeColumns where
  slack := free.slack + relations.countP (· == .atMost)
  surplus := free.surplus + relations.countP (· == .atLeast)
  artificial := free.artificial + relations.countP (· != .atMost)

theorem take_snd (α : Type) [Scalar α] (free : FreeColumns) (relation : Relation) :
    (free.take (α := α) relation).2 = free.behind [relation] := by
  cases relation <;> rfl

theorem behind_append (free : FreeColumns) (relations others : List Relation) :
    (free.behind relations).behind others = free.behind (relations ++ others) := by
  simp only [behind, List.countP_append, Nat.add_assoc]

theorem behind_cons (free : FreeColumns) (relation : Relation) (rest : List Relation) :
    (free.behind [relation]).behind rest = free.behind (relation :: rest) :=
  free.behind_append [relation] rest

theorem takeAll_snd (α : Type) [Scalar α] (free : FreeColumns) (relations : List Relation) :
    (free.takeAll (α := α) relations).2 = free.behind relations := by
  induction relations generalizing free with
  | nil => rfl
  | cons relation rest ih =>
    unfold takeAll
    dsimp only
    rw [ih, take_snd, behind_cons]

theorem getElem?_takeAll (α : Type) [Scalar α] (free : FreeColumns) (relations : List Relation)
    (i : Nat) : (free.takeAll (α := α) relations).1[i]? =
      relations[i]?.map fun relation => ((free.behind (relations.take i)).take relation).1 := by
  induction relations generalizing free i with
  | nil => rfl
  | cons relation rest ih =>
    unfold takeAll
    dsimp only
    cases i with
    | zero => rfl
    | succ i =>
      rw [List.getElem?_cons_succ, List.getElem?_cons_succ, ih, take_snd, List.take_succ_cons,
        behind_cons]

end FreeColumns

namespace Problem

section
variable {α : Type} [Scalar α]

theorem ownColumns_snd (p : Problem α) : p.ownColumns.2 = (Layout.ofProblem p).usedUp := by
  unfold ownColumns
  rw [FreeColumns.takeAll_snd, FreeColumns.behind]
  simp only [List.countP_map]
  rfl

/-- A program with a constraint has its starting tableaux: the columns it hands out are those of
its layout. -/
theorem start_ok {p : Problem α} (some : p.constraints ≠ []) (phase : Phase) :
    p.start phase = .ok (p.tableau phase) := by
  have nonempty : ¬ p.constraints.isEmpty = true := by simpa using some
  unfold start
  rw [if_neg nonempty, if_pos p.ownColumns_snd]

theorem start_error {p : Problem α} (empty : p.constraints = []) (phase : Phase) :
    p.start phase = .error .noConstraints := by
  unfold start
  rw [if_pos (by simpa using empty)]

theorem start_eq {p : Problem α} {phase : Phase} {t : Tableau α} (h : p.start phase = .ok t) :
    t = p.tableau phase := by
  by_cases some : p.constraints = []
  · unfold start at h
    rw [if_pos (by simpa using some)] at h
    nomatch h
  · rw [start_ok some] at h
    exact (Except.ok.inj h).symm

@[simp] theorem layout_tableau (p : Problem α) (phase : Phase) :
    (p.tableau phase).layout = Layout.ofProblem p := rfl

@[simp] theorem constraintCount_tableau (p : Problem α) (phase : Phase) :
    (p.tableau phase).constraintCount = p.constraints.length := by
  simp [tableau]

theorem length_costs (p : Problem α) : p.costs.length = (Layout.ofProblem p).decision :=
  List.length_map ..

theorem costs_fit (p : Problem α) : p.costs.length ≤ (Layout.ofProblem p).artificialStart := by
  rw [length_costs]
  exact Layout.decision_le_artificialStart _

end

section
variable {α : Type}

def freeBefore (p : Problem α) (i : Nat) : FreeColumns :=
  (Layout.ofProblem p).freeColumns.behind ((p.constraints.map (·.relation)).take i)

section
variable {p : Problem α} {i : Nat} (hi : i < p.constraints.length)
include hi

theorem countP_before_lt {q : Relation → Bool} (h : q p.constraints[i].relation = true) :
    ((p.constraints.map (·.relation)).take i).countP q <
      p.constraints.countP fun c => q c.relation := by
  have less := countP_take_lt (p := q) (l := p.constraints.map (·.relation)) (i := i)
    (by simpa using hi) (by simpa using h)
  rwa [List.countP_map] at less

theorem slack_lt (h : p.constraints[i].relation = .atMost) :
    (p.freeBefore i).slack < (Layout.ofProblem p).surplusStart := by
  have less := countP_before_lt hi (q := (· == .atMost)) (by simp [h])
  exact Nat.add_lt_add_left less _

theorem surplus_lt (h : p.constraints[i].relation = .atLeast) :
    (p.freeBefore i).surplus < (Layout.ofProblem p).artificialStart := by
  have less := countP_before_lt hi (q := (· == .atLeast)) (by simp [h])
  exact Nat.add_lt_add_left less _

theorem artificial_lt (h : p.constraints[i].relation ≠ .atMost) :
    (p.freeBefore i).artificial < (Layout.ofProblem p).rhs := by
  have less := countP_before_lt hi (q := (· != .atMost)) (by simpa using h)
  exact Nat.add_lt_add_left less _

end

theorem slackStart_le (p : Problem α) (i : Nat) :
    (Layout.ofProblem p).slackStart ≤ (p.freeBefore i).slack := Nat.le_add_right _ _

theorem surplusStart_le (p : Problem α) (i : Nat) :
    (Layout.ofProblem p).surplusStart ≤ (p.freeBefore i).surplus := Nat.le_add_right _ _

theorem artificialStart_le (p : Problem α) (i : Nat) :
    (Layout.ofProblem p).artificialStart ≤ (p.freeBefore i).artificial := Nat.le_add_right _ _

end

section
variable {α : Type} [Scalar α]

/-- The columns that row `i` takes for itself. -/
def ownOf (p : Problem α) (i : Nat) (relation : Relation) : OwnColumns α :=
  ((p.freeBefore i).take relation).1

theorem getElem?_rows {p : Problem α} {i : Nat} (hi : i < p.constraints.length) :
    (p.constraints.zip p.ownColumns.1)[i]? =
      some (p.constraints[i], p.ownOf i p.constraints[i].relation) := by
  have own : p.ownColumns.1[i]? = some (p.ownOf i p.constraints[i].relation) := by
    rw [ownColumns, FreeColumns.getElem?_takeAll, List.getElem?_map, List.getElem?_eq_getElem hi]
    rfl
  exact List.getElem?_zip_eq_some.mpr ⟨List.getElem?_eq_getElem hi, own⟩

theorem getElem?_rows_length (p : Problem α) :
    (p.constraints.zip p.ownColumns.1)[p.constraints.length]? = none := by
  rw [List.getElem?_eq_none_iff, List.length_zip]
  exact Nat.min_le_left _ _

/-! ### Entries -/

theorem entry_tableau {p : Problem α} (phase : Phase) {i j : Nat}
    (hi : i < p.constraints.length) (hj : j < (Layout.ofProblem p).rhs) :
    (p.tableau phase).entry i j = match p.names[j]? with
      | some name => p.constraints[i].coefficientOf name
      | none => ((p.ownOf i p.constraints[i].relation).lookup j).getD 0 := by
  rw [tableau, Tableau.entry_ofFn hi.le (Nat.lt_succ_of_lt hj), getElem?_rows hi]
  dsimp only
  exact if_neg hj.ne

theorem rhs_tableau {p : Problem α} (phase : Phase) {i : Nat}
    (hi : i < p.constraints.length) : (p.tableau phase).rhs i = p.constraints[i].bound := by
  rw [Tableau.rhs, layout_tableau, tableau,
    Tableau.entry_ofFn hi.le (Layout.rhs_lt_columns _), getElem?_rows hi]
  dsimp only
  rw [if_pos rfl]

theorem objective_tableau (p : Problem α) (phase : Phase) {j : Nat}
    (hj : j < (Layout.ofProblem p).columns) :
    (p.tableau phase).entry p.constraints.length j = match phase with
      | .one => if (Layout.ofProblem p).isArtificial j then 1 else 0
      | .two => p.costs.getD j 0 := by
  rw [tableau, Tableau.entry_ofFn (Nat.le_refl _) hj, getElem?_rows_length]
  cases phase with
  | one => rfl
  | two => exact (List.getD_eq_getElem?_getD ..).symm

section
variable {p : Problem α} {i : Nat} (hi : i < p.constraints.length)
include hi

theorem ownOf_inside {q : Nat × α} (hq : q ∈ p.ownOf i p.constraints[i].relation) :
    p.names.length ≤ q.1 ∧ q.1 < (Layout.ofProblem p).rhs := by
  have order : (Layout.ofProblem p).slackStart = p.names.length := rfl
  have order₁ := (Layout.ofProblem p).slackStart_le_surplusStart
  have order₂ := (Layout.ofProblem p).surplusStart_le_artificialStart
  have order₃ := (Layout.ofProblem p).artificialStart_le_rhs
  have first := p.slackStart_le i
  have second := p.surplusStart_le i
  have third := p.artificialStart_le i
  cases h : p.constraints[i].relation with
  | atMost =>
    have bound := slack_lt hi h
    rw [h] at hq
    obtain rfl := List.mem_singleton.mp hq
    exact ⟨by dsimp only; omega, by dsimp only; omega⟩
  | equal =>
    have bound := artificial_lt hi (by rw [h]; decide)
    rw [h] at hq
    obtain rfl := List.mem_singleton.mp hq
    exact ⟨by dsimp only; omega, bound⟩
  | atLeast =>
    have bound := artificial_lt hi (by rw [h]; decide)
    have bound' := surplus_lt hi h
    rw [h] at hq
    rcases List.mem_cons.mp hq with rfl | hq
    · exact ⟨by dsimp only; omega, by dsimp only; omega⟩
    · obtain rfl := List.mem_singleton.mp hq
      exact ⟨by dsimp only; omega, bound⟩

theorem nodup_ownOf : ((p.ownOf i p.constraints[i].relation).map Prod.fst).Nodup := by
  cases h : p.constraints[i].relation with
  | atMost | equal => exact List.nodup_singleton _
  | atLeast =>
    have bound := surplus_lt hi h
    have third := p.artificialStart_le i
    have other : (p.freeBefore i).surplus ≠ (p.freeBefore i).artificial := by omega
    exact List.nodup_cons.mpr ⟨fun same => other (List.mem_singleton.mp same),
      List.nodup_singleton _⟩

end

end

/-! ### Rows as equations -/

/-- What the columns of its own add to a row at a point. -/
def ownSum (own : OwnColumns Rat) (z : Nat → Rat) : Rat := (own.map fun (j, v) => v * z j).sum

def valuesAt (p : Problem Rat) (z : Nat → Rat) : Assignment := fun name =>
  match p.column? name with
  | some j => z j
  | none => 0

theorem valuesAt_getElem {p : Problem Rat} {j : Nat} (hj : j < p.names.length) (z : Nat → Rat) :
    p.valuesAt z p.names[j] = z j := by
  have found : p.column? p.names[j] = some j :=
    column?_eq_some_iff.mpr (List.getElem?_eq_getElem hj)
  simp only [valuesAt, found]

theorem sum_lookup {own : OwnColumns Rat} {a b : Nat} (nodup : (own.map Prod.fst).Nodup)
    (inside : ∀ q ∈ own, a ≤ q.1 ∧ q.1 < b) (z : Nat → Rat) :
    ∑ j ∈ Finset.Ico a b, (own.lookup j).getD 0 * z j = ownSum own z := by
  induction own with
  | nil => simp [ownSum]
  | cons q rest ih =>
    obtain ⟨k, v⟩ := q
    rw [List.map_cons, List.nodup_cons] at nodup
    have later := ih nodup.2 fun q hq => inside q (List.mem_cons_of_mem _ hq)
    have absent : rest.lookup k = none := by
      rw [List.lookup_eq_none_iff]
      intro q hq
      rw [bne_iff_ne]
      rintro rfl
      exact nodup.1 (List.mem_map.mpr ⟨q, hq, rfl⟩)
    have parted : ∀ j, (((k, v) :: rest).lookup j).getD 0 * z j =
        (if j = k then v * z j else 0) + (rest.lookup j).getD 0 * z j := by
      intro j
      rw [List.lookup_cons]
      by_cases same : j = k
      · subst same
        simp [absent]
      · simp [same, beq_eq_false_iff_ne.mpr same]
    have place : k ∈ Finset.Ico a b :=
      Finset.mem_Ico.mpr (inside (k, v) List.mem_cons_self)
    simp only [parted, Finset.sum_add_distrib, Finset.sum_ite_eq', if_pos place, later]
    simp [ownSum]

section
variable {p : Problem Rat} {i : Nat} (hi : i < p.constraints.length)
include hi

/-- The row of a constraint, as the constraint with the columns of its own. -/
theorem residual_tableau (phase : Phase) (z : Nat → Rat) :
    (p.tableau phase).residual z i =
      p.constraints[i].leftAt (p.valuesAt z) + ownSum (p.ownOf i p.constraints[i].relation) z -
        p.constraints[i].bound := by
  have width : p.names.length ≤ (Layout.ofProblem p).rhs :=
    le_trans (Layout.ofProblem p).decision_le_artificialStart (Layout.artificialStart_le_rhs _)
  have decisions : ∑ j ∈ Finset.range p.names.length, (p.tableau phase).entry i j * z j =
      p.constraints[i].leftAt (p.valuesAt z) := by
    rw [← p.sum_coefficients (List.getElem_mem hi) (p.valuesAt z)]
    apply sum_range_eq_sum_map
    intro j hj
    rw [entry_tableau phase hi (by omega), List.getElem?_eq_getElem hj, valuesAt_getElem hj]
  have owns : ∑ j ∈ Finset.Ico p.names.length (Layout.ofProblem p).rhs,
      (p.tableau phase).entry i j * z j = ownSum (p.ownOf i p.constraints[i].relation) z := by
    rw [← sum_lookup (nodup_ownOf hi) (fun q hq => ownOf_inside hi hq) z]
    apply Finset.sum_congr rfl
    intro j hj
    obtain ⟨low, high⟩ := Finset.mem_Ico.mp hj
    rw [entry_tableau phase hi high, List.getElem?_eq_none low]
  rw [Tableau.residual, rhs_tableau phase hi, Tableau.rowSum, layout_tableau,
    ← Finset.sum_range_add_sum_Ico _ width, decisions, owns]

end

end Problem

end Simplex
