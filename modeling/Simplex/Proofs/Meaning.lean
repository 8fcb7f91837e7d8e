import Simplex.Proofs.Phases

/-!
# What the tableaux of a program mean

The constraint rows of a starting tableau are the constraints: the assignments that satisfy them are
those that nonnegative slacks and surpluses extend to a solution of the rows, in one way only
(`system_of_start`). The tableau that is handed over to phase 2 has the solutions of these rows
without artificial part and measures their costs, whatever was driven out or found basic
(`system_of_handover`).
-/

namespace Simplex

/-- A count of the elements of a kind has an element of this kind behind as many others. -/
theorem exists_countP_take {β : Type} {q : β → Bool} {l : List β} {k : Nat}
    (hk : k < l.countP q) : ∃ i, ∃ hi : i < l.length, q l[i] = true ∧ (l.take i).countP q = k := by
  induction l generalizing k with
  | nil => nomatch hk
  | cons a rest ih =>
    by_cases kind : q a = true
    · rw [List.countP_cons_of_pos kind] at hk
      cases k with
      | zero => exact ⟨0, by simp, kind, rfl⟩
      | succ k =>
        obtain ⟨i, hi, same, count⟩ := ih (Nat.lt_of_succ_lt_succ hk)
        refine ⟨i + 1, by simpa using hi, same, ?_⟩
        rw [List.take_succ_cons, List.countP_cons_of_pos kind, count]
    · rw [List.countP_cons_of_neg kind] at hk
      obtain ⟨i, hi, same, count⟩ := ih hk
      refine ⟨i + 1, by simpa using hi, same, ?_⟩
      rw [List.take_succ_cons, List.countP_cons_of_neg kind, count]

namespace Problem

/-! ### The rows of slacks and surpluses -/

section
variable {α : Type} {p : Problem α}

theorem exists_row (relation : Relation) {k : Nat}
    (hk : k < p.constraints.countP (·.relation == relation)) :
    ∃ i, ∃ hi : i < p.constraints.length, p.constraints[i].relation = relation ∧
      ((p.constraints.map (·.relation)).take i).countP (· == relation) = k := by
  obtain ⟨i, hi, kind, count⟩ := exists_countP_take hk
  refine ⟨i, hi, eq_of_beq kind, ?_⟩
  rw [← List.map_take, List.countP_map]
  exact count

theorem exists_slack_row {j : Nat} (low : (Layout.ofProblem p).slackStart ≤ j)
    (high : j < (Layout.ofProblem p).surplusStart) :
    ∃ i, ∃ hi : i < p.constraints.length, p.constraints[i].relation = .atMost ∧
      (p.freeBefore i).slack = j := by
  obtain ⟨i, hi, kind, count⟩ :=
    p.exists_row .atMost (Nat.sub_lt_left_of_lt_add low high)
  refine ⟨i, hi, kind, ?_⟩
  unfold freeBefore FreeColumns.behind Layout.freeColumns
  dsimp only
  omega

theorem exists_surplus_row {j : Nat} (low : (Layout.ofProblem p).surplusStart ≤ j)
    (high : j < (Layout.ofProblem p).artificialStart) :
    ∃ i, ∃ hi : i < p.constraints.length, p.constraints[i].relation = .atLeast ∧
      (p.freeBefore i).surplus = j := by
  obtain ⟨i, hi, kind, count⟩ :=
    p.exists_row .atLeast (Nat.sub_lt_left_of_lt_add low high)
  refine ⟨i, hi, kind, ?_⟩
  unfold freeBefore FreeColumns.behind Layout.freeColumns
  dsimp only
  omega

end

/-! ### Extensions of an assignment -/

/-- The values of an assignment, some nonnegative slacks and surpluses, and no artificial part. -/
structure Extends (p : Problem Rat) (x : Assignment) (z : Nat → Rat) : Prop where
  values : ∀ j (hj : j < p.names.length), z j = x p.names[j]
  nonneg : ∀ j, p.names.length ≤ j → j < (Layout.ofProblem p).artificialStart → 0 ≤ z j
  real : ∀ j, (Layout.ofProblem p).artificialStart ≤ j → z j = 0

section
variable {p : Problem Rat} {x : Assignment} {z : Nat → Rat}

theorem Extends.valuesAt (h : p.Extends x z) : ∀ name ∈ p.names, p.valuesAt z name = x name := by
  intro name member
  obtain ⟨j, hj, rfl⟩ := List.getElem_of_mem member
  rw [valuesAt_getElem hj, h.values j hj]

theorem extends_pointAt (p : Problem Rat) (x : Assignment) : p.Extends x (p.pointAt x) where
  values _ hj := pointAt_name hj x
  nonneg _ low _ := pointAt_gap_nonneg low x
  real _ hj := pointAt_artificial hj x

/-- The only extension that can solve the rows has the gaps of the inequalities, and it does so if
all constraints hold. -/
theorem Extends.solves_iff (h : p.Extends x z) (phase : Phase) :
    (p.tableau phase).Solves z ↔ (∀ c ∈ p.constraints, c.HoldsAt x) ∧ z = p.pointAt x := by
  have row := fun i (hi : i < p.constraints.length) =>
    residual_eq_zero_iff h.valuesAt h.nonneg (fun j low _ => h.real j low) phase hi
  constructor
  · intro solved
    have rows := fun i (hi : i < p.constraints.length) =>
      (row i hi).mp (solved i (by simpa using hi))
    refine ⟨fun c member => ?_, funext fun j => ?_⟩
    · obtain ⟨i, hi, rfl⟩ := List.getElem_of_mem member
      exact (rows i hi).1
    · by_cases decision : j < p.names.length
      · rw [h.values j decision, pointAt_name decision]
      by_cases slack : j < (Layout.ofProblem p).surplusStart
      · obtain ⟨i, hi, kind, rfl⟩ := p.exists_slack_row (not_lt.mp decision) slack
        rw [(rows i hi).2.1 kind, pointAt_slack hi kind]
      by_cases surplus : j < (Layout.ofProblem p).artificialStart
      · obtain ⟨i, hi, kind, rfl⟩ := p.exists_surplus_row (not_lt.mp slack) surplus
        rw [(rows i hi).2.2 kind, pointAt_surplus hi kind]
      · rw [h.real j (not_lt.mp surplus), pointAt_artificial (not_lt.mp surplus)]
  · rintro ⟨holds, rfl⟩ i hi
    rw [constraintCount_tableau] at hi
    exact (row i hi).mpr ⟨holds _ (List.getElem_mem hi),
      fun kind => pointAt_slack hi kind x, fun kind => pointAt_surplus hi kind x⟩

theorem Extends.rowSum_two (h : p.Extends x z) :
    (p.tableau .two).rowSum z p.constraints.length = match p.direction with
      | .maximize => -p.objectiveAt x
      | .minimize => p.objectiveAt x := by
  rw [rowSum_tableau_two, costAt_valuesAt, costAt_congr h.valuesAt]
  exact p.costAt_eq x

end

/-- A program with a constraint has its starting tableaux. Their rows mean the constraints: these hold
at an assignment, nonnegative or not, if and only if some nonnegative slacks and surpluses extend it
to a solution of the rows, and these are then unique. The objective row of phase 1 is the sum of the
artificial variables, and that of phase 2 is the objective, to be minimized. -/
theorem system_of_start {p : Problem Rat} (some : p.constraints ≠ []) (phase : Phase) :
    ∃ t, p.start phase = .ok t ∧ t.layout = Layout.ofProblem p ∧
      t.constraintCount = p.constraints.length ∧
      (∀ x, (∀ c ∈ p.constraints, c.HoldsAt x) ↔ ∃ z, p.Extends x z ∧ t.Solves z) ∧
      (∀ x z z', p.Extends x z → t.Solves z → p.Extends x z' → t.Solves z' → z = z') ∧
      match phase with
      | .one => ∀ z, t.rowSum z t.constraintCount = (Layout.ofProblem p).artificialSum z
      | .two => ∀ x z, p.Extends x z → t.rowSum z t.constraintCount = match p.direction with
        | .maximize => -p.objectiveAt x
        | .minimize => p.objectiveAt x := by
  refine ⟨p.tableau phase, start_ok some phase, rfl, p.constraintCount_tableau phase, fun x => ?_,
    fun x z z' h solved h' solved' => ?_, ?_⟩
  · constructor
    · intro holds
      have extended := p.extends_pointAt x
      exact ⟨p.pointAt x, extended, (extended.solves_iff phase).mpr ⟨holds, rfl⟩⟩
    · rintro ⟨z, extended, solved⟩
      exact ((extended.solves_iff phase).mp solved).1
  · rw [((h.solves_iff phase).mp solved).2, ((h'.solves_iff phase).mp solved').2]
  · rw [constraintCount_tableau]
    cases phase with
    | one => exact p.rowSum_tableau_one
    | two => exact fun x z extended => extended.rowSum_two

theorem system_of_start_mixed :
    let x : Assignment := fun name => if name = "x1" then 2 else 3
    ∃ (p : Problem Rat) (t : Tableau Rat),
      Problem.ofTexts "x1+2x2" ["x1+x2=5", "x1>=1", "x2+x2<=7", "2x1+x2>=3"] .maximize = .ok p ∧
      p.start .two = .ok t ∧ ∃ z, p.Extends x z ∧ t.Solves z ∧
        (∀ z', p.Extends x z' → t.Solves z' → z' = z) ∧ t.rowSum z t.constraintCount = -8 := by
  intro x
  obtain ⟨p, read, some, direction, holds, value⟩ : Yields
      (Problem.ofTexts "x1+2x2" ["x1+x2=5", "x1>=1", "x2+x2<=7", "2x1+x2>=3"] .maximize)
      fun p : Problem Rat => p.constraints ≠ [] ∧ p.direction = .maximize ∧
        (∀ c ∈ p.constraints, c.HoldsAt x) ∧ p.objectiveAt x = 8 := by
    decide +kernel
  obtain ⟨t, started, -, -, means, unique, measures⟩ := system_of_start some .two
  obtain ⟨z, extended, solved⟩ := (means x).mp holds
  refine ⟨p, t, read, started, z, extended, solved, fun z' extended' solved' =>
    unique x z' z extended' solved' extended solved, ?_⟩
  have measured := measures x z extended
  rwa [direction, value] at measured

/-! ### The handover -/

/-- A phase 2 start that phase 1 hands over has the columns of the variables, slacks and surpluses. Its
rows are solved by the points that solve those of the program without artificial part, and its
objective row measures their costs. -/
theorem system_of_handover {p : Problem Rat} {limit : Nat} {last second : Tableau Rat}
    (ended : p.phaseOneEnd .carryBasis limit = .ok last)
    (handed : (last.carryBasis p).outcome = .ok second) :
    second.layout = (Layout.ofProblem p).withoutArtificial ∧
      ∃ t, p.start .one = .ok t ∧
        (∀ z, second.Solves z ↔ t.Solves (Tableau.realPart (Layout.ofProblem p) z)) ∧
        ∀ z, second.Solves z →
          second.residual z second.constraintCount = Tableau.costAt p.costs z := by
  obtain ⟨layout, -, represents, -⟩ := represents_phaseOneEnd ended
  have fits := costs_fit_phaseOneEnd ended
  obtain ⟨-, failed⟩ | ⟨-, carried, given, succeeded⟩ := Tableau.carryBasis_cases fits
  · rw [failed] at handed
    nomatch handed
  rw [succeeded] at handed
  obtain rfl := Except.ok.inj handed
  obtain ⟨first, started, -⟩ := except_bind_ok ended
  obtain ⟨t, built, -⟩ := except_bind_ok started
  obtain ⟨carried', given', same, -⟩ := last.handedOver_ok
  obtain rfl : carried = carried' := Except.ok.inj (given.symm.trans given')
  have pricing := pricing_handover layout represents given
  refine ⟨?_, t, built, fun z => ?_, fun z solved => ?_⟩
  · rw [Tableau.layout_recosted, same, layout]
  · rw [start_eq built]
    exact pricing.represents.solves_iff z
  · exact pricing.represents.measure_eq z ((pricing.represents.solves_iff z).mp solved)

theorem system_of_handover_redundant :
    let y : Nat → Rat := fun j => [3 / 2, 1 / 2, 1 / 2].getD j 0
    ∃ (p : Problem Rat) (last second t : Tableau Rat),
      Problem.ofTexts "x1+2x2" ["x1+x2=2", "2x1+2x2=4", "x1>=1"] .maximize = .ok p ∧
      p.phaseOneEnd .carryBasis 100 = .ok last ∧ (last.carryBasis p).outcome = .ok second ∧
      second.Solves y ∧ p.start .one = .ok t ∧
      t.Solves (Tableau.realPart (Layout.ofProblem p) y) ∧
      second.residual y second.constraintCount = -5 / 2 := by
  intro y
  obtain ⟨p, read, cost, last, ended, second, handed, solved⟩ : Yields
      (Problem.ofTexts "x1+2x2" ["x1+x2=2", "2x1+2x2=4", "x1>=1"] .maximize)
      fun p : Problem Rat => Tableau.costAt p.costs y = -5 / 2 ∧
        Yields (p.phaseOneEnd .carryBasis 100) fun last =>
          Yields (last.carryBasis p).outcome fun second => second.Solves y := by
    decide +kernel
  obtain ⟨-, t, built, system, measure⟩ := system_of_handover ended handed
  exact ⟨p, last, second, t, read, ended, handed, solved, built, (system y).mp solved,
    (measure y solved).trans cost⟩

end Problem

end Simplex
