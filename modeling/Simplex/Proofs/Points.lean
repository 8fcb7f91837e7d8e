import Simplex.Proofs.StandardForm

/-!
# Assignments as points

A feasible assignment has a point on the columns of a starting tableau that solves its rows, with
the gaps of the inequalities as slacks and surpluses and no artificial part. A nonnegative solution
without artificial part is read back as a feasible assignment. Both follow from what one row says of
a point without artificial part (`residual_eq_zero_iff`).
-/

namespace Simplex

def Layout.artificialSum (l : Layout) (z : Nat → Rat) : Rat :=
  ∑ j ∈ Finset.Ico l.artificialStart l.rhs, z j

namespace Problem

/-- The points that solve the constraint rows of the starting tableaux. -/
def System (p : Problem Rat) (z : Nat → Rat) : Prop := (p.tableau .one).Solves z

theorem solves_tableau_iff (p : Problem Rat) (phase : Phase) (z : Nat → Rat) :
    (p.tableau phase).Solves z ↔ p.System z := by
  have same : ∀ i < p.constraints.length,
      (p.tableau phase).residual z i = (p.tableau .one).residual z i := by
    intro i hi
    rw [residual_tableau hi, residual_tableau hi]
  constructor
  · intro solved i hi
    rw [constraintCount_tableau] at hi
    rw [← same i hi]
    exact solved i (by simpa using hi)
  · intro solved i hi
    rw [constraintCount_tableau] at hi
    rw [same i hi]
    exact solved i (by simpa using hi)

theorem objectiveValue_tableau (p : Problem Rat) (phase : Phase) :
    (p.tableau phase).objectiveValue = 0 := by
  rw [Tableau.objectiveValue, Tableau.objectiveRow_eq, constraintCount_tableau, Tableau.rhs,
    layout_tableau, p.objective_tableau phase (Layout.rhs_lt_columns _)]
  cases phase with
  | one => simp [Layout.isArtificial]
  | two => exact List.getD_eq_default _ _ (le_trans p.costs_fit (Layout.artificialStart_le_rhs _))

theorem residual_objective (p : Problem Rat) (phase : Phase) (z : Nat → Rat) :
    (p.tableau phase).residual z p.constraints.length =
      (p.tableau phase).rowSum z p.constraints.length := by
  have right := p.objectiveValue_tableau phase
  rw [Tableau.objectiveValue, Tableau.objectiveRow_eq, constraintCount_tableau] at right
  rw [Tableau.residual, right, sub_zero]

theorem rowSum_tableau_one (p : Problem Rat) (z : Nat → Rat) :
    (p.tableau .one).rowSum z p.constraints.length = (Layout.ofProblem p).artificialSum z := by
  have entries : ∀ j ∈ Finset.range (Layout.ofProblem p).rhs,
      (p.tableau .one).entry p.constraints.length j * z j =
        if (Layout.ofProblem p).artificialStart ≤ j then z j else 0 := by
    intro j hj
    have hj' := Finset.mem_range.mp hj
    rw [p.objective_tableau .one (Nat.lt_succ_of_lt hj')]
    simp [Layout.isArtificial, hj']
  rw [Tableau.rowSum, layout_tableau, Finset.sum_congr rfl entries, ← Finset.sum_filter,
    Layout.artificialSum]
  apply Finset.sum_congr _ fun _ _ => rfl
  ext j
  rw [Finset.mem_filter, Finset.mem_range, Finset.mem_Ico, and_comm]

theorem rowSum_tableau_two (p : Problem Rat) (z : Nat → Rat) :
    (p.tableau .two).rowSum z p.constraints.length = Tableau.costAt p.costs z := by
  rw [← residual_objective, ← p.constraintCount_tableau .two]
  apply Tableau.residual_of_costs
  · intro j hj
    rw [constraintCount_tableau, p.objective_tableau .two hj]
  · exact le_trans p.costs_fit (Layout.artificialStart_le_rhs _)

theorem represents_tableau_one (p : Problem Rat) :
    (p.tableau .one).Represents p.System (Layout.ofProblem p).artificialSum where
  solves_iff z := p.solves_tableau_iff .one z
  measure_eq z _ := by rw [constraintCount_tableau, residual_objective, rowSum_tableau_one]

theorem represents_tableau_two (p : Problem Rat) :
    (p.tableau .two).Represents p.System (Tableau.costAt p.costs) where
  solves_iff z := p.solves_tableau_iff .two z
  measure_eq z _ := by rw [constraintCount_tableau, residual_objective, rowSum_tableau_two]

theorem costAt_valuesAt (p : Problem Rat) (z : Nat → Rat) :
    Tableau.costAt p.costs z = p.costAt (p.valuesAt z) := by
  have paired : ∀ j (hj : j < (p.costs.zip p.names).length),
      p.costs.getD j 0 * z j =
        (p.costs.zip p.names)[j].1 * p.valuesAt z (p.costs.zip p.names)[j].2 := by
    intro j hj
    rw [List.length_zip] at hj
    have hc : j < p.costs.length := by omega
    have hn : j < p.names.length := by omega
    rw [List.getElem_zip, List.getD_eq_getElem _ _ hc]
    dsimp only
    rw [valuesAt_getElem hn]
  have width : p.costs.length = (p.costs.zip p.names).length := by
    rw [List.length_zip, length_costs]
    exact (Nat.min_self _).symm
  rw [Tableau.costAt, width,
    sum_range_eq_sum_map (g := fun q : Rat × String => q.1 * p.valuesAt z q.2) paired, costAt,
    ← List.map_uncurry_zip_eq_zipWith]
  rfl

theorem costAt_realPart (p : Problem Rat) (z : Nat → Rat) :
    Tableau.costAt p.costs (Tableau.realPart (Layout.ofProblem p) z) =
      Tableau.costAt p.costs z := by
  apply Finset.sum_congr rfl
  intro j hj
  have inside := lt_of_lt_of_le (Finset.mem_range.mp hj) p.costs_fit
  rw [Tableau.realPart, if_pos inside]

/-! ### From assignments to points -/

def gapsAt (p : Problem Rat) (relation : Relation) (x : Assignment) : List Rat :=
  (p.constraints.filter (·.relation == relation)).map (·.gapAt x)

/-- The columns of an assignment: its values, then the slacks, then the surpluses. -/
def columnsAt (p : Problem Rat) (x : Assignment) : List Rat :=
  p.names.map x ++ (p.gapsAt .atMost x ++ p.gapsAt .atLeast x)

/-- The point of an assignment, without artificial part. -/
def pointAt (p : Problem Rat) (x : Assignment) (j : Nat) : Rat := (p.columnsAt x).getD j 0

theorem length_gapsAt (p : Problem Rat) (relation : Relation) (x : Assignment) :
    (p.gapsAt relation x).length = p.constraints.countP (·.relation == relation) := by
  rw [gapsAt, List.length_map, ← List.countP_eq_length_filter]

theorem length_columnsAt (p : Problem Rat) (x : Assignment) :
    (p.columnsAt x).length = (Layout.ofProblem p).artificialStart := by
  rw [columnsAt, List.length_append, List.length_append, length_gapsAt, length_gapsAt,
    List.length_map, ← Nat.add_assoc]
  rfl

theorem pointAt_artificial {p : Problem Rat} {j : Nat}
    (hj : (Layout.ofProblem p).artificialStart ≤ j) (x : Assignment) : p.pointAt x j = 0 := by
  rw [pointAt, List.getD_eq_default _ _ (by rw [length_columnsAt]; exact hj)]

theorem pointAt_name {p : Problem Rat} {j : Nat} (hj : j < p.names.length) (x : Assignment) :
    p.pointAt x j = x p.names[j] := by
  rw [pointAt, columnsAt, List.getD_append _ _ _ _ (by simpa using hj),
    List.getD_eq_getElem _ _ (by simpa using hj), List.getElem_map]

theorem getD_gapsAt {p : Problem Rat} {i : Nat} (hi : i < p.constraints.length) (x : Assignment) :
    (p.gapsAt p.constraints[i].relation x).getD
      ((p.constraints.take i).countP (·.relation == p.constraints[i].relation)) 0 =
        p.constraints[i].gapAt x := by
  have found := getElem?_filter_countP (p := (·.relation == p.constraints[i].relation)) hi
    (beq_self_eq_true _)
  rw [gapsAt, List.getD_eq_getElem?_getD, List.getElem?_map, found]
  rfl

section
variable {p : Problem Rat} {i : Nat} (hi : i < p.constraints.length)
include hi

theorem pointAt_slack (h : p.constraints[i].relation = .atMost) (x : Assignment) :
    p.pointAt x (p.freeBefore i).slack = p.constraints[i].gapAt x := by
  have place : (p.freeBefore i).slack =
      (p.names.map x).length + (p.constraints.take i).countP (·.relation == .atMost) := by
    rw [List.length_map, freeBefore, FreeColumns.behind, ← List.map_take, List.countP_map]
    rfl
  have less := countP_take_lt (p := (·.relation == .atMost)) hi (by simp [h])
  have found := getD_gapsAt hi x
  rw [h] at found
  rw [pointAt, place, columnsAt, List.getD_append_right _ _ _ _ (Nat.le_add_right _ _),
    Nat.add_sub_cancel_left, List.getD_append _ _ _ _ (by rw [length_gapsAt]; exact less), found]

theorem pointAt_surplus (h : p.constraints[i].relation = .atLeast) (x : Assignment) :
    p.pointAt x (p.freeBefore i).surplus = p.constraints[i].gapAt x := by
  have place : (p.freeBefore i).surplus = (p.names.map x).length +
      ((p.gapsAt .atMost x).length + (p.constraints.take i).countP (·.relation == .atLeast)) := by
    have counted := List.countP_map (p := (· == Relation.atLeast))
      (f := fun c : Constraint Rat => c.relation) (l := p.constraints.take i)
    rw [List.length_map, length_gapsAt, ← Nat.add_assoc]
    exact congrArg _ ((congrArg _ (List.map_take ..).symm).trans counted)
  have found := getD_gapsAt hi x
  rw [h] at found
  rw [pointAt, place, columnsAt, List.getD_append_right _ _ _ _ (Nat.le_add_right _ _),
    Nat.add_sub_cancel_left, List.getD_append_right _ _ _ _ (Nat.le_add_right _ _),
    Nat.add_sub_cancel_left, found]

end

theorem leftAt_congr {p : Problem Rat} {c : Constraint Rat} (hc : c ∈ p.constraints)
    {x y : Assignment} (same : ∀ name ∈ p.names, x name = y name) : c.leftAt x = c.leftAt y := by
  rw [Constraint.leftAt, Constraint.leftAt, Term.sumAt, Term.sumAt]
  apply congrArg
  apply List.map_congr_left
  intro t ht
  rw [same _ (p.mem_names_of_constraint hc ht)]

theorem costAt_congr {p : Problem Rat} {x y : Assignment}
    (same : ∀ name ∈ p.names, x name = y name) : p.costAt x = p.costAt y := by
  have objective : p.objectiveAt x = p.objectiveAt y := by
    rw [objectiveAt, objectiveAt, Term.sumAt, Term.sumAt]
    apply congrArg
    apply List.map_congr_left
    intro t ht
    rw [same _ (p.mem_names_of_objective ht)]
  rw [costAt_eq, costAt_eq, objective]

theorem valuesAt_pointAt (p : Problem Rat) (x : Assignment) :
    ∀ name ∈ p.names, p.valuesAt (p.pointAt x) name = x name := by
  intro name member
  obtain ⟨j, hj, rfl⟩ := List.getElem_of_mem member
  rw [valuesAt_getElem hj, pointAt_name hj]

theorem costAt_pointAt (p : Problem Rat) (x : Assignment) :
    Tableau.costAt p.costs (p.pointAt x) = p.costAt x := by
  rw [costAt_valuesAt, costAt_congr (p.valuesAt_pointAt x)]

theorem artificialSum_pointAt (p : Problem Rat) (x : Assignment) :
    (Layout.ofProblem p).artificialSum (p.pointAt x) = 0 :=
  Finset.sum_eq_zero fun _ hj => pointAt_artificial (Finset.mem_Ico.mp hj).1 x

theorem gapAt_nonneg (c : Constraint Rat) (x : Assignment) : 0 ≤ c.gapAt x := by
  unfold Constraint.gapAt
  cases c.relation with
  | equal => exact le_refl 0
  | atMost | atLeast => exact abs_nonneg _

theorem pointAt_gap_nonneg {p : Problem Rat} {j : Nat} (hj : p.names.length ≤ j)
    (x : Assignment) : 0 ≤ p.pointAt x j := by
  have gaps : ∀ v ∈ p.gapsAt .atMost x ++ p.gapsAt .atLeast x, 0 ≤ v := by
    intro v hv
    rcases List.mem_append.mp hv with gap | gap <;>
      · obtain ⟨c, -, rfl⟩ := List.mem_map.mp gap
        exact gapAt_nonneg c x
  rw [pointAt, columnsAt, List.getD_append_right _ _ _ _ (by simpa using hj)]
  generalize p.gapsAt .atMost x ++ p.gapsAt .atLeast x = columns at gaps
  generalize j - (p.names.map x).length = k
  by_cases inside : k < columns.length
  · rw [List.getD_eq_getElem _ _ inside]
    exact gaps _ (List.getElem_mem inside)
  · rw [List.getD_eq_default _ _ (not_lt.mp inside)]

theorem pointAt_nonneg {p : Problem Rat} {x : Assignment}
    (nonneg : ∀ name ∈ p.names, 0 ≤ x name) (j : Nat) : 0 ≤ p.pointAt x j := by
  by_cases hj : j < p.names.length
  · rw [pointAt_name hj]
    exact nonneg _ (List.getElem_mem hj)
  · exact pointAt_gap_nonneg (not_lt.mp hj) x

/-- A point without artificial part solves a row if the constraint holds and its slack or surplus is
the gap that is left. -/
theorem residual_eq_zero_iff {p : Problem Rat} {x : Assignment} {z : Nat → Rat}
    (values : ∀ name ∈ p.names, p.valuesAt z name = x name)
    (nonneg : ∀ j, p.names.length ≤ j → j < (Layout.ofProblem p).artificialStart → 0 ≤ z j)
    (real : ∀ j, (Layout.ofProblem p).artificialStart ≤ j → j < (Layout.ofProblem p).rhs → z j = 0)
    (phase : Phase) {i : Nat} (hi : i < p.constraints.length) :
    (p.tableau phase).residual z i = 0 ↔ p.constraints[i].HoldsAt x ∧
      (p.constraints[i].relation = .atMost →
        z (p.freeBefore i).slack = p.constraints[i].gapAt x) ∧
      (p.constraints[i].relation = .atLeast →
        z (p.freeBefore i).surplus = p.constraints[i].gapAt x) := by
  have order := (Layout.ofProblem p).surplusStart_le_artificialStart
  have first : p.names.length ≤ (p.freeBefore i).slack := p.slackStart_le i
  have second := le_trans (Layout.ofProblem p).slackStart_le_surplusStart (p.surplusStart_le i)
  have behind := p.artificialStart_le i
  rw [residual_tableau hi, leftAt_congr (List.getElem_mem hi) values]
  unfold Constraint.HoldsAt Constraint.gapAt
  cases kind : p.constraints[i].relation with
  | atMost =>
    have slack := nonneg _ first (lt_of_lt_of_le (slack_lt hi kind) order)
    simp only [ownOf, FreeColumns.take, ownSum, List.map_cons, List.map_nil, List.sum_cons,
      List.sum_nil, Relation.Holds, forall_const, reduceCtorEq, false_implies, and_true]
    constructor
    · intro row
      have below : p.constraints[i].leftAt x ≤ p.constraints[i].bound := by linarith
      rw [abs_of_nonneg (sub_nonneg.mpr below)]
      exact ⟨below, by linarith⟩
    · rintro ⟨below, gap⟩
      rw [abs_of_nonneg (sub_nonneg.mpr below)] at gap
      linarith
  | equal =>
    have unused := real _ behind (artificial_lt hi (by rw [kind]; decide))
    simp only [ownOf, FreeColumns.take, ownSum, List.map_cons, List.map_nil, List.sum_cons,
      List.sum_nil, unused, Relation.Holds, reduceCtorEq, false_implies, and_true]
    rw [mul_zero, add_zero, add_zero, sub_eq_zero]
  | atLeast =>
    have surplus := nonneg _ second (surplus_lt hi kind)
    have unused := real _ behind (artificial_lt hi (by rw [kind]; decide))
    simp only [ownOf, FreeColumns.take, ownSum, List.map_cons, List.map_nil, List.sum_cons,
      List.sum_nil, unused, Relation.Holds, forall_const, reduceCtorEq, false_implies, true_and]
    constructor
    · intro row
      have above : p.constraints[i].bound ≤ p.constraints[i].leftAt x := by linarith
      rw [abs_of_nonpos (sub_nonpos.mpr above)]
      exact ⟨above, by linarith⟩
    · rintro ⟨above, gap⟩
      rw [abs_of_nonpos (sub_nonpos.mpr above)] at gap
      linarith

theorem solves_pointAt {p : Problem Rat} {x : Assignment} (feasible : p.FeasibleAt x) :
    p.System (p.pointAt x) := by
  intro i hi
  rw [constraintCount_tableau] at hi
  have row := residual_eq_zero_iff (p.valuesAt_pointAt x) (fun _ low _ => pointAt_gap_nonneg low x)
    (fun _ low _ => pointAt_artificial low x) .one hi
  exact row.mpr ⟨feasible.2 _ (List.getElem_mem hi), fun kind => pointAt_slack hi kind x,
    fun kind => pointAt_surplus hi kind x⟩

theorem sum_gapsAt (constraints : List (Constraint Rat)) (x : Assignment) :
    ((constraints.filter (·.relation == .atMost)).map (·.gapAt x)).sum +
        ((constraints.filter (·.relation == .atLeast)).map (·.gapAt x)).sum =
      (constraints.map (·.gapAt x)).sum := by
  induction constraints with
  | nil => simp
  | cons c rest ih =>
    rw [List.map_cons, List.sum_cons, ← ih]
    cases h : c.relation with
    | atMost =>
      rw [List.filter_cons_of_pos (by simp [h]), List.filter_cons_of_neg (by simp [h]),
        List.map_cons, List.sum_cons]
      ring
    | equal =>
      have gap : c.gapAt x = 0 := by simp only [Constraint.gapAt, h]
      rw [List.filter_cons_of_neg (by simp [h]), List.filter_cons_of_neg (by simp [h]), gap,
        zero_add]
    | atLeast =>
      rw [List.filter_cons_of_neg (by simp [h]), List.filter_cons_of_pos (by simp [h]),
        List.map_cons, List.sum_cons]
      ring

theorem sum_pointAt (p : Problem Rat) (x : Assignment) :
    ∑ j ∈ Finset.range (Layout.ofProblem p).artificialStart, p.pointAt x j = p.sizeAt x := by
  have columns : ∑ j ∈ Finset.range (p.columnsAt x).length, p.pointAt x j =
      ((p.columnsAt x).map fun v => v).sum :=
    sum_range_eq_sum_map fun j hj => by rw [pointAt, List.getD_eq_getElem _ _ hj]
  rw [← length_columnsAt p x, columns, List.map_id', columnsAt, List.sum_append, List.sum_append,
    gapsAt, gapsAt, sum_gapsAt, sizeAt]

/-! ### From points to assignments -/

theorem feasibleAt_valuesAt {p : Problem Rat} {z : Nat → Rat} (solved : p.System z)
    (nonneg : ∀ j < (Layout.ofProblem p).artificialStart, 0 ≤ z j)
    (real : ∀ j, (Layout.ofProblem p).artificialStart ≤ j → j < (Layout.ofProblem p).rhs →
      z j = 0) : p.FeasibleAt (p.valuesAt z) := by
  constructor
  · intro name member
    obtain ⟨j, hj, rfl⟩ := List.getElem_of_mem member
    rw [valuesAt_getElem hj]
    exact nonneg j (lt_of_lt_of_le hj (Layout.ofProblem p).decision_le_artificialStart)
  · intro c member
    obtain ⟨i, hi, rfl⟩ := List.getElem_of_mem member
    have row := residual_eq_zero_iff (fun _ _ => rfl) (fun j _ => nonneg j) real .one hi
    exact (row.mp (solved i (by simpa using hi))).1

end Problem

end Simplex
