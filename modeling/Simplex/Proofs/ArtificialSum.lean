import Simplex.Proofs.Bounds
import Simplex.Proofs.Limits
import Simplex.Proofs.Multipliers
import Simplex.Proofs.Tracking

/-!
# The artificial sum

Phase 1 prices its objective row out once, against the starting basis, and then only pivots. Each
pivot leaves the row the costs of the artificial variables less a combination of the constraint rows,
and on an exact basis this combination is the sum of the rows whose basic variable is artificial
(`PhaseOneOn.entry_objective`). So the sum that the handover compares with the tolerance is that of
the artificial variables in the basic solution (`artificialSum_of_answer`).
-/

namespace Simplex

/-! ### The tableaux of a trace -/

namespace Trace

section
variable {α : Type} {phase : Phase}

/-- The tableaux of a phase that a trace shows, in order. -/
def tableaux (phase : Phase) (trace : Trace α) : List (Tableau α) :=
  trace.filterMap fun event => (event.tableau?.filter (·.1 = phase)).map Prod.snd

theorem tableaux_append (phase : Phase) (first second : Trace α) :
    (first ++ second).tableaux phase = first.tableaux phase ++ second.tableaux phase :=
  List.filterMap_append

theorem tableaux_of_without {trace : Trace α} (h : Without phase trace) :
    trace.tableaux phase = [] := by
  apply List.filterMap_eq_nil_iff.mpr
  intro event member
  have without := h event member
  cases shown : event.tableau? with
  | none => rfl
  | some q =>
    rw [shown] at without
    have other : q.1 ≠ phase := fun same => without (congrArg some same)
    rw [Option.filter_some, if_neg (by simpa using other), Option.map_none]

theorem tableaux_cons {event : Event α} {t : Tableau α} (shown : event.tableau? = some (phase, t))
    (rest : Trace α) : tableaux phase (event :: rest) = t :: rest.tableaux phase := by
  have own : (event.tableau?.filter (·.1 = phase)).map Prod.snd = some t := by
    rw [shown, Option.filter_some, if_pos (by simp), Option.map_some]
  exact List.filterMap_cons_some own

theorem tableaux_iterationsFrom (phase : Phase) (number : Nat) (later : List (Tableau α)) :
    (iterationsFrom phase number later).tableaux phase = later := by
  induction later generalizing number with
  | nil => rfl
  | cons t rest ih => rw [iterationsFrom, tableaux_cons rfl, ih]

theorem tableaux_ofPhase (phase : Phase) (first : Tableau α) (later : List (Tableau α)) :
    (ofPhase phase first later).tableaux phase = first :: later := by
  rw [ofPhase, tableaux_cons rfl, tableaux_iterationsFrom]

end

end Trace

namespace Problem

/-- The tableaux of phase 1, each with its basis. It begins with the slack or artificial variable of
each row. -/
def phaseOneRun (p : Problem Rat) (limit : Nat) : List (Tableau Rat × (Nat → Option Nat)) :=
  match p.phaseOneStart .carryBasis with
  | .error _ => []
  | .ok first => first.tracked p.startBasis (first.descend .one limit).steps

section
variable {p : Problem Rat} {limit : Nat}

theorem phaseOneRun_of_start {first : Tableau Rat}
    (started : p.phaseOneStart .carryBasis = .ok first) :
    p.phaseOneRun limit = first.tracked p.startBasis (first.descend .one limit).steps := by
  rw [phaseOneRun, started]

theorem map_fst_phaseOneRun (some : p.constraints ≠ []) :
    (p.phaseOneRun limit).map Prod.fst = p.firstTableau .carryBasis ::
      (p.firstTableau .carryBasis).later .one limit := by
  rw [phaseOneRun_of_start (phaseOneStart_ok some .carryBasis), Tableau.map_fst_tracked,
    Tableau.later]

/-- Every course shows the tableaux of phase 1 before anything else. -/
theorem tableaux_of_runs {c : Course Rat (Tableau Rat)} (runs : p.Runs .carryBasis limit c) :
    c.events.tableaux .one = (p.phaseOneRun limit).map Prod.fst := by
  have phaseOne : p.constraints ≠ [] →
      ((p.firstTableau .carryBasis).course .one limit).events.tableaux .one =
        (p.phaseOneRun limit).map Prod.fst := by
    intro some
    rw [Tableau.events_course, Trace.tableaux_ofPhase, map_fst_phaseOneRun some]
  cases runs with
  | unconstrained empty =>
    rw [phaseOneRun, phaseOneStart_error empty]
    rfl
  | phaseOne some ended => exact phaseOne some
  | infeasible some ended =>
    rw [Trace.tableaux_append, phaseOne some]
    exact List.append_nil _
  | @phaseTwo last second some ended handed =>
    have later : Trace.tableaux .one
        (.phaseOneComplete :: (second.course .two limit).events) = [] := by
      apply Trace.tableaux_of_without
      rw [Tableau.events_course]
      rintro _ (_ | ⟨_, member⟩)
      · nofun
      · exact Trace.without_ofPhase (by decide) _ _ _ member
    rw [Trace.tableaux_append, phaseOne some, later, List.append_nil]

theorem getLast?_phaseOneRun {last : Tableau Rat}
    (ended : p.phaseOneEnd .carryBasis limit = .ok last) :
    ∃ basis, (p.phaseOneRun limit).getLast? = some (last, basis) := by
  obtain ⟨first, started, descended⟩ := except_bind_ok ended
  rw [phaseOneRun_of_start started, (Tableau.optimal_of_descend descended).1]
  exact first.getLast?_tracked p.startBasis _

/-- A run is found infeasible if and only if phase 1 ends with more than the tolerance. -/
theorem phaseTwoEnd_infeasible_iff {sum : Rat} :
    p.phaseTwoEnd .carryBasis limit = .error (.infeasible sum) ↔
      ∃ last, p.phaseOneEnd .carryBasis limit = .ok last ∧ sum = -last.objectiveValue ∧
        Scalar.tolerance < sum := by
  constructor
  · exact infeasible_phaseTwoEnd
  · rintro ⟨last, ended, rfl, remaining⟩
    obtain ⟨-, failed⟩ | ⟨accepted, -⟩ := Tableau.carryBasis_cases (costs_fit_phaseOneEnd ended)
    · rw [phaseTwoEnd, phaseTwoStart, ended]
      show ((last.carryBasis p).outcome >>= _) = _
      rw [failed]
      rfl
    · exact absurd remaining accepted

end

end Problem

/-! ### The priced row -/

namespace Layout

/-- What the columns cost in phase 1. -/
def artificialCosts (l : Layout) : List Rat :=
  (List.range l.rhs).map fun j => if l.isArtificial j then 1 else 0

theorem getD_artificialCosts (l : Layout) (j : Nat) :
    l.artificialCosts.getD j 0 = if l.isArtificial j then 1 else 0 := by
  by_cases inside : j < l.rhs
  · rw [artificialCosts, List.getD_eq_getElem _ _ (by simpa using inside), List.getElem_map,
      List.getElem_range]
  · rw [artificialCosts, List.getD_eq_default _ _ (by simpa using inside), isArtificial,
      decide_eq_false inside, Bool.and_false, if_neg Bool.false_ne_true]

end Layout

namespace Tableau

/-- The rows whose basic variable is artificial. -/
def artificialBasics (t : Tableau Rat) (basis : Nat → Option Nat) : Finset Nat :=
  (Finset.range t.constraintCount).filter fun i => (basis i).any t.layout.isArtificial

/-- A tableau of phase 1 on its basis. The last field holds the objective row in a form that a pivot
keeps, whatever becomes of the basis. -/
structure PhaseOneOn (p : Problem Rat) (t : Tableau Rat) (basis : Nat → Option Nat) : Prop where
  layout : t.layout = Layout.ofProblem p
  represents : t.Represents p.System (Layout.ofProblem p).artificialSum
  canonical : t.Canonical basis
  full : t.IsFull basis
  combines : ∃ m, t.Combines (Layout.ofProblem p).artificialCosts m

section
variable {p : Problem Rat} {t : Tableau Rat} {basis : Nat → Option Nat}

theorem PhaseOneOn.chosen {step : Step Rat} (chosen : t.Chosen step) (h : PhaseOneOn p t basis) :
    PhaseOneOn p step.result (Function.update basis step.row (some step.column)) where
  layout := by
    rw [chosen.result_eq, layout_pivot]
    exact h.layout
  represents := h.represents.chosen chosen
  canonical := h.canonical.chosen chosen
  full := h.full.chosen chosen
  combines := by
    obtain ⟨m, combines⟩ := h.combines
    rw [chosen.result_eq]
    exact ⟨_, combines.pivot chosen.row_lt (Nat.lt_succ_of_lt chosen.column_lt) chosen.nonzero⟩

theorem combines_tableau (p : Problem Rat) :
    (p.tableau .one).Combines (Layout.ofProblem p).artificialCosts fun _ => 0 := by
  intro j hj
  rw [Problem.constraintCount_tableau, p.objective_tableau .one hj, Layout.getD_artificialCosts]
  simp only [zero_mul, Finset.sum_const_zero, sub_zero]

theorem phaseOneOn_start {first : Tableau Rat} (started : p.phaseOneStart .carryBasis = .ok first) :
    PhaseOneOn p first p.startBasis := by
  obtain ⟨layout, -, represents⟩ := Problem.represents_phaseOneStart started
  obtain ⟨canonical, full⟩ := Problem.canonical_phaseOneStart started
  refine ⟨layout, represents, canonical, full, ?_⟩
  obtain rfl := Problem.eq_firstTableau started
  have fits : 0 + (p.tableau .one).startingBasis.length ≤ (p.tableau .one).constraintCount := by
    rw [Nat.zero_add]
    exact (p.tableau .one).startingBasis_fits.1
  obtain ⟨m, combines, -⟩ := exists_combines_priceFrom (combines_tableau p) fits
  exact ⟨m, combines⟩

/-- The multiplier of a row is the cost of its basic variable, so it counts the row or leaves it
out. -/
theorem PhaseOneOn.entry_objective (h : PhaseOneOn p t basis) {j : Nat}
    (hj : j < t.layout.columns) :
    t.entry t.objectiveRow j = (if t.layout.isArtificial j then 1 else 0) -
      ∑ i ∈ t.artificialBasics basis, t.entry i j := by
  obtain ⟨m, combines⟩ := h.combines
  have terms : ∀ i ∈ Finset.range t.constraintCount, m i * t.entry i j =
      if (basis i).any t.layout.isArtificial then t.entry i j else 0 := by
    intro i hi
    have hi' := Finset.mem_range.mp hi
    obtain ⟨k, basic⟩ := Option.isSome_iff_exists.mp (h.full i hi')
    have cost := combines.cost_of_unitAt (h.canonical.isBasis.unitAt hi' basic) hi'
      (h.canonical.isPriced i hi' k basic)
    rw [← cost, Layout.getD_artificialCosts, ← h.layout, basic, Option.any_some, ite_mul, one_mul,
      zero_mul]
  rw [objectiveRow_eq, combines j hj, Layout.getD_artificialCosts, ← h.layout,
    Finset.sum_congr rfl terms, ← Finset.sum_filter]
  rfl

theorem PhaseOneOn.objectiveValue_eq (h : PhaseOneOn p t basis) :
    t.objectiveValue = -∑ i ∈ t.artificialBasics basis, t.rhs i := by
  have outside : t.layout.isArtificial t.layout.rhs = false := by
    rw [Layout.isArtificial, decide_eq_false (lt_irrefl _), Bool.and_false]
  rw [objectiveValue, rhs, h.entry_objective t.layout.rhs_lt_columns, outside,
    if_neg Bool.false_ne_true, zero_sub]
  rfl

theorem PhaseOneOn.artificialSum_basicPoint (h : PhaseOneOn p t basis) :
    t.Solves (t.basicPoint basis) ∧
      (Layout.ofProblem p).artificialSum (t.basicPoint basis) = -t.objectiveValue := by
  have solved := h.canonical.solves_basicPoint h.full
  have measured := h.represents.measure_eq _ ((h.represents.solves_iff _).mp solved)
  rw [residual_basicPoint h.canonical.isBasis h.canonical.isPriced] at measured
  exact ⟨solved, measured.symm⟩

end

end Tableau

theorem Problem.phaseOneOn_of_mem_run {p : Problem Rat} {limit : Nat}
    {q : Tableau Rat × (Nat → Option Nat)} (member : q ∈ p.phaseOneRun limit) :
    Tableau.PhaseOneOn p q.1 q.2 := by
  cases started : p.phaseOneStart .carryBasis with
  | error fault =>
    rw [phaseOneRun, started] at member
    nomatch member
  | ok first =>
    rw [phaseOneRun_of_start started] at member
    exact Tableau.forall_tracked (Q := Tableau.PhaseOneOn p) (fun _ _ _ chosen h => h.chosen chosen)
      (first.descend_along .one limit) (Tableau.phaseOneOn_start started) q member

/-! ### Answers -/

namespace Session

theorem tableaux_appended {s : Session Rat} {r : Request} {p : Problem Rat}
    (carries : s.transition = .carryBasis) (read : r.problem Rat = .ok p) :
    (s.appended r).tableaux .one = (p.phaseOneRun s.maxIterations).map Prod.fst := by
  have blank : (r.input : Trace Rat).tableaux .one = [] :=
    Trace.tableaux_of_without (r.without_input .one)
  have runs := p.runs_course s.transition s.maxIterations
  rw [carries] at runs
  rw [(after_of_read read).2, carries, Trace.tableaux_append, blank, List.nil_append,
    Problem.tableaux_of_runs runs]

theorem answer_infeasible_iff {s : Session Rat} {r : Request} {p : Problem Rat}
    (carries : s.transition = .carryBasis) (read : r.problem Rat = .ok p) {sum : Rat} :
    s.answer r = .error (.infeasible sum) ↔
      p.phaseTwoEnd .carryBasis s.maxIterations = .error (.infeasible sum) := by
  rw [(after_of_read read).1, carries, Problem.result_course, map_eq_error_iff]

/-- On the basis that is tracked along phase 1, the objective row of each tableau shown is the costs
of the artificial variables less the rows in which one is basic, and so is its value. An infeasible
program is answered with the sum of the artificial variables in the last basic solution, exactly if
this exceeds the tolerance. -/
theorem artificialSum_of_answer {s : Session Rat} {r : Request} {p : Problem Rat}
    (carries : s.transition = .carryBasis) (read : r.problem Rat = .ok p) :
    (s.appended r).tableaux .one = (p.phaseOneRun s.maxIterations).map Prod.fst ∧
    (∀ t basis, (t, basis) ∈ p.phaseOneRun s.maxIterations →
      (∀ j < t.layout.columns, t.entry t.objectiveRow j =
        (if t.layout.isArtificial j then 1 else 0) -
          ∑ i ∈ t.artificialBasics basis, t.entry i j) ∧
      t.objectiveValue = -∑ i ∈ t.artificialBasics basis, t.rhs i ∧
      t.Solves (t.basicPoint basis) ∧
      (Layout.ofProblem p).artificialSum (t.basicPoint basis) = -t.objectiveValue) ∧
    ∀ sum, s.answer r = .error (.infeasible sum) ↔
      ∃ last basis, p.phaseOneEnd .carryBasis s.maxIterations = .ok last ∧
        (p.phaseOneRun s.maxIterations).getLast? = some (last, basis) ∧
        sum = (Layout.ofProblem p).artificialSum (last.basicPoint basis) ∧
        Scalar.tolerance < sum := by
  refine ⟨tableaux_appended carries read, ?_, fun sum => ?_⟩
  · intro t basis member
    have on := Problem.phaseOneOn_of_mem_run member
    exact ⟨fun j hj => on.entry_objective hj, on.objectiveValue_eq, on.artificialSum_basicPoint⟩
  · rw [answer_infeasible_iff carries read, Problem.phaseTwoEnd_infeasible_iff]
    constructor
    · rintro ⟨last, ended, rfl, remaining⟩
      obtain ⟨basis, final⟩ := Problem.getLast?_phaseOneRun ended
      have on := Problem.phaseOneOn_of_mem_run (List.mem_of_getLast? final)
      exact ⟨last, basis, ended, final, on.artificialSum_basicPoint.2.symm, remaining⟩
    · rintro ⟨last, basis, ended, final, rfl, remaining⟩
      have on := Problem.phaseOneOn_of_mem_run (List.mem_of_getLast? final)
      exact ⟨last, ended, on.artificialSum_basicPoint.2, remaining⟩

/-- A program whose equation is two short of its right-hand side. -/
def twoShort : Request where
  objective := "x1+x2"
  constraints := ["x1+x2=5", "x1>=1", "x2<=2", "x1<=1"]
  direction := .minimize

theorem artificialSum_of_answer_remainder :
    let s : Session Rat := { transition := .carryBasis, maxIterations := 100 }
    s.answer twoShort = .error (.infeasible 2) ∧
      ∃ (p : Problem Rat) (last : Tableau Rat) (basis : Nat → Option Nat),
        twoShort.problem Rat = .ok p ∧
        ((s.appended twoShort).tableaux .one).getLast? = some last ∧
        (last, basis) ∈ p.phaseOneRun 100 ∧
        ∑ i ∈ last.artificialBasics basis, last.rhs i = 2 ∧
        (Layout.ofProblem p).artificialSum (last.basicPoint basis) = 2 := by
  intro s
  have failed : (s.answer twoShort).map (·.tableau) = .error (.infeasible 2) := by decide +kernel
  obtain ⟨p, read, -⟩ : Yields (twoShort.problem Rat) fun _ => True := by decide +kernel
  obtain ⟨shown, priced, infeasible⟩ := artificialSum_of_answer (s := s) rfl read
  obtain ⟨s', ran⟩ := error_of_outcome failed
  have answer : s.answer twoShort = .error (.infeasible 2) := congrArg outcome ran
  obtain ⟨last, basis, -, final, sum, -⟩ := (infeasible 2).mp answer
  have member := List.mem_of_getLast? final
  obtain ⟨-, value, -, total⟩ := priced last basis member
  refine ⟨answer, p, last, basis, read, ?_, member, ?_, sum.symm⟩
  · rw [shown, List.getLast?_map, final, Option.map_some]
  · rw [sum, total, value, neg_neg]

end Session

end Simplex
