import Simplex.Proofs.AccessBetweenPhases
import Simplex.Proofs.Filling
import Simplex.Proofs.History
import Simplex.Proofs.Replay

/-!
# Safety

A session and a solver whose every operation on a tableau has its accesses checked do the same as
those without (`Session.Strict.run_eq`, `Solver.Strict.solve_eq`), and neither ends in the fault of a
check. Every tableau that is recorded has a row for each constraint, the objective row under them
and the columns of its phase (`safe_of_request`). No law of arithmetic is assumed: this holds of
doubles with their infinities and NaN.
-/

namespace Simplex

variable {α : Type} [Scalar α]

/-! ### Sessions with each access checked -/

namespace Session.Strict

def build (p : Problem α) (phase : Phase) : SessionM α (Tableau α) := do
  let t ← ofExcept (Problem.Strict.start p phase)
  tell [.building phase t.layout, .built phase t]
  return t

def startPhaseOne (p : Problem α) : SessionM α (Tableau α) := do
  let t ← build p .one
  match (← get).transition with
  | .rebuild => return t
  | .carryBasis => ofExcept (Tableau.Strict.priceStart t)

def startPhaseTwo (p : Problem α) (t : Tableau α) : SessionM α (Tableau α) := do
  match (← get).transition with
  | .rebuild => build p .two
  | .carryBasis =>
    let h := Tableau.Strict.carryBasis t p
    tell h.records
    ofExcept h.outcome

def iterate (phase : Phase) (t : Tableau α) : SessionM α (Tableau α) := do
  push [.initial phase t]
  enter (.iterating phase)
  let limit := (← get).maxIterations
  let d := Tableau.Strict.run phase limit limit t
  tell (d.records phase t)
  push (d.events phase)
  let optimum ← ofExcept d.ending
  tell [.optimal phase d.steps.length]
  return optimum

def runPhases (objective : String) (constraints : List String) (direction : Direction) :
    SessionM α (Terminal α) := do
  enter .parsingInput
  push (Event.ofInput objective constraints direction)
  let problem ← ofExcept (Problem.ofTexts objective constraints direction)
  tell [.parsed problem.names problem.constraints.length, .phaseBegins .one]
  enter (.building .one)
  let last ← iterate .one (← startPhaseOne problem)
  push [.phaseOneComplete]
  tell [.phaseBegins .two]
  enter (.building .two)
  let tableau ← iterate .two (← startPhaseTwo problem last)
  enter .done
  return { problem, tableau }

def run (objective : String) (constraints : List String) (direction : Direction) :
    SessionM α (Terminal α) := fun s =>
  match runPhases objective constraints direction s with
  | .ok terminal s => .ok terminal s
  | .error fault s => fail fault s

theorem build_eq (p : Problem α) (phase : Phase) : build p phase = Session.build p phase := by
  rw [build, Problem.Strict.start_eq, Session.build]

theorem startPhaseOne_eq (p : Problem α) : startPhaseOne p = Session.startPhaseOne p := by
  rw [startPhaseOne, build_eq, Session.startPhaseOne]
  refine bind_congr fun t => bind_congr fun s => ?_
  cases s.transition with
  | rebuild => rfl
  | carryBasis => exact congrArg Session.ofExcept (Tableau.Strict.priceStart_eq t)

theorem startPhaseTwo_eq (p : Problem α) (t : Tableau α) :
    startPhaseTwo p t = Session.startPhaseTwo p t := by
  rw [startPhaseTwo, Session.startPhaseTwo]
  refine bind_congr fun s => ?_
  cases s.transition with
  | rebuild => exact build_eq p .two
  | carryBasis =>
    exact congrArg (fun h : Handover α => do
      Session.tell h.records
      Session.ofExcept h.outcome) (Tableau.Strict.carryBasis_eq t p)

theorem iterate_eq (phase : Phase) (t : Tableau α) : iterate phase t = Session.iterate phase t := by
  simp only [iterate, Session.iterate, Tableau.Strict.run_eq, Tableau.descend]

theorem runPhases_eq (objective : String) (constraints : List String) (direction : Direction) :
    (runPhases objective constraints direction : SessionM α (Terminal α)) =
      Session.runPhases objective constraints direction := by
  simp only [runPhases, Session.runPhases, startPhaseOne_eq, startPhaseTwo_eq, iterate_eq]

theorem run_eq (objective : String) (constraints : List String) (direction : Direction) :
    (run objective constraints direction : SessionM α (Terminal α)) =
      Session.run objective constraints direction := by
  funext s
  rw [run, runPhases_eq]
  rfl

end Session.Strict

namespace Solver.Strict

def solveIn (s : Solver) (objective : String) (constraints : List String) (direction : Direction) :
    SessionM α (Report α) := do
  let terminal ← Session.Strict.run objective constraints direction
  let solution ← Session.ofExcept
    (Tableau.Strict.solution terminal.tableau terminal.problem s.readout)
  Session.tell [.optimumFound solution.objective]
  Session.push [.finalReport solution]
  return { trace := (← get).trace, solution }

def solve (s : Solver) (objective : String) (constraints : List String) (direction : Direction) :
    Except (Fault α) (Report α) :=
  Session.outcome (solveIn s objective constraints direction s.session)

theorem solve_eq (s : Solver) (objective : String) (constraints : List String)
    (direction : Direction) :
    (solve s objective constraints direction : Except (Fault α) (Report α)) =
      s.solve objective constraints direction := by
  have same : (solveIn s objective constraints direction : SessionM α (Report α)) =
      s.solveIn objective constraints direction := by
    simp only [solveIn, Solver.solveIn, Session.Strict.run_eq, Tableau.Strict.solution_eq]
  rw [solve, same, Solver.solve, Solver.solveLogged]
  cases s.solveIn objective constraints direction (s.session : Session α) <;> rfl

end Solver.Strict

/-! ### Faults of the checks -/

/-- An access outside a tableau, columns other than those of the layout, or a matrix that does not
fit its layout. -/
def Fault.IsBreach : Fault α → Prop
  | .outside _ _ | .miscounted | .misshapen _ _ _ => True
  | _ => False

theorem Stops.not_isBreach {limit : Nat} {phase : Phase} {first : Tableau α}
    {later : List (Tableau α)} {fault : Fault α} (h : Stops limit phase first later fault) :
    ¬ fault.IsBreach := by
  have ends := h.ends
  generalize later.getLastD first = last at ends
  cases ends with
  | limit => exact id
  | stuck _ stuck => cases stuck <;> exact id

theorem Session.not_isBreach {s : Session α} {r : Request} {fault : Fault α}
    (failed : s.answer r = .error fault) : ¬ fault.IsBreach := by
  obtain ⟨events, -, exit⟩ := s.exit_of_request r
  rw [failed] at exit
  cases exit with
  | unreadable | unconstrained | infeasible => exact id
  | phaseOne _ _ stops => exact stops.not_isBreach
  | phaseTwo _ _ _ stops => exact stops.not_isBreach

/-! ### Shapes -/

namespace Tableau

/-- A tableau of this layout with a row for each of `count` constraints. -/
structure Shaped (t : Tableau α) (count : Nat) (layout : Layout) : Prop where
  layout_eq : t.layout = layout
  rows : t.rows.length = count + 1
  columns : ∀ row ∈ t.rows, row.length = layout.columns

omit [Scalar α] in
theorem shaped_of_eq {t : Tableau α} {count : Nat} {layout : Layout}
    (same : t.layout = layout) (rows : t.constraintCount = count) : t.Shaped count layout where
  layout_eq := same
  rows := by rw [length_rows, rows]
  columns := same ▸ t.length_of_mem

theorem Shaped.chosen {t : Tableau α} {count : Nat} {layout : Layout} {step : Step α}
    (chosen : t.Chosen step) (h : t.Shaped count layout) : step.result.Shaped count layout := by
  refine shaped_of_eq ?_ ?_
  · rw [chosen.result_eq, layout_pivot, h.layout_eq]
  · rw [chosen.result_eq, constraintCount_pivot, constraintCount, h.rows, Nat.add_sub_cancel]

/-- Every tableau of a phase has the shape of the one that it begins with. -/
theorem Shaped.of_course {t u : Tableau α} {count limit : Nat} {layout : Layout}
    {phase phase' : Phase} {event : Event α} (h : t.Shaped count layout)
    (member : event ∈ (t.course phase limit).events)
    (shows : event.tableau? = some (phase', u)) : phase' = phase ∧ u.Shaped count layout := by
  rcases List.mem_cons.mp member with rfl | later
  · obtain ⟨rfl, rfl⟩ := Prod.mk.inj (Option.some.inj shows)
    exact ⟨rfl, h⟩
  · obtain ⟨⟨step, i⟩, place, rfl⟩ := List.mem_map.mp later
    obtain ⟨rfl, rfl⟩ := Prod.mk.inj (Option.some.inj shows)
    have taken := List.mem_of_getElem? (List.mem_zipIdx_iff_getElem?.mp place)
    exact ⟨rfl, forall_of_along (fun _ _ => Shaped.chosen) (t.descend_along phase limit) h step
      taken⟩

end Tableau

namespace Problem

/-- The layout of the tableaux of a phase. -/
def layoutOf (p : Problem α) (transition : Transition) : Phase → Layout
  | .one => Layout.ofProblem p
  | .two => p.secondLayout transition

variable {p : Problem α} {transition : Transition}

theorem shaped_firstTableau (p : Problem α) (transition : Transition) :
    (p.firstTableau transition).Shaped p.constraints.length (p.layoutOf transition .one) := by
  refine Tableau.shaped_of_eq (p.layout_firstTableau transition) ?_
  cases transition with
  | rebuild => exact p.constraintCount_tableau .one
  | carryBasis => exact (Tableau.constraintCount_priceFrom ..).trans (p.constraintCount_tableau .one)

theorem shaped_startAfter {last second : Tableau α} (some : p.constraints ≠ [])
    (shaped : last.Shaped p.constraints.length (Layout.ofProblem p))
    (handed : p.startAfter last transition = .ok second) :
    second.Shaped p.constraints.length (p.layoutOf transition .two) := by
  refine Tableau.shaped_of_eq (layout_startAfter some shaped.layout_eq handed) ?_
  cases transition with
  | rebuild =>
    obtain rfl := start_eq handed
    exact p.constraintCount_tableau .two
  | carryBasis =>
    have fits : p.costs.length ≤ last.layout.artificialStart := by
      rw [shaped.layout_eq]
      exact p.costs_fit
    obtain ⟨-, failed⟩ | ⟨-, carried, given, carries⟩ := Tableau.carryBasis_cases fits
    · rw [startAfter, failed] at handed
      nomatch handed
    · obtain ⟨carried', given', -, count⟩ := last.handedOver_ok
      obtain rfl : carried = carried' := Except.ok.inj (given.symm.trans given')
      obtain rfl : carried.recosted p.costs = second :=
        Except.ok.inj (carries.symm.trans handed)
      rw [Tableau.constraintCount_recosted, count, Tableau.constraintCount, shaped.rows,
        Nat.add_sub_cancel]

/-- Every tableau of both phases has a row for each constraint and the columns of its phase. -/
theorem shaped_of_runs {limit : Nat} {c : Course α (Tableau α)} (runs : p.Runs transition limit c)
    {event : Event α} {phase : Phase} {t : Tableau α} (member : event ∈ c.events)
    (shows : event.tableau? = some (phase, t)) :
    t.Shaped p.constraints.length (p.layoutOf transition phase) := by
  have one : event ∈ ((p.firstTableau transition).course .one limit).events →
      t.Shaped p.constraints.length (p.layoutOf transition phase) := by
    intro member
    obtain ⟨rfl, shaped⟩ := (p.shaped_firstTableau transition).of_course member shows
    exact shaped
  cases runs with
  | unconstrained => nomatch member
  | phaseOne => exact one member
  | infeasible =>
    rcases List.mem_append.mp member with first | last
    · exact one first
    · obtain rfl := List.mem_singleton.mp last
      nomatch shows
  | @phaseTwo last second some ended handed =>
    rcases List.mem_append.mp member with first | others
    · exact one first
    rcases List.mem_cons.mp others with rfl | later
    · nomatch shows
    have shaped : last.Shaped p.constraints.length (Layout.ofProblem p) := by
      obtain ⟨rfl, -⟩ := Tableau.optimal_of_descend ended
      exact Tableau.reached_of_along (fun _ _ => Tableau.Shaped.chosen)
        (Tableau.descend_along _ .one limit) (p.shaped_firstTableau transition)
    obtain ⟨rfl, shaped'⟩ := (shaped_startAfter some shaped handed).of_course later shows
    exact shaped'

end Problem

/-- If the event shows a tableau, the texts of the request are a program, and the tableau has a row
for each constraint of it and the columns of its phase. -/
def Event.Fits (r : Request) (transition : Transition) (event : Event α) : Prop :=
  ∀ phase t, event.tableau? = some (phase, t) → ∃ p, r.problem α = .ok p ∧
    t.Shaped r.constraints.length (p.layoutOf transition phase)

theorem Session.fits_appended (s : Session α) (r : Request) :
    ∀ event ∈ s.appended r, event.Fits r s.transition := by
  intro event member phase t shows
  obtain ⟨-, p, read, length⟩ | ⟨_, _, -, failed⟩ := r.problem_cases (α := α)
  · rw [(after_of_read read).2] at member
    rcases List.mem_append.mp member with input | later
    · rw [Request.blank_input input] at shows
      nomatch shows
    · refine ⟨p, read, ?_⟩
      rw [← length]
      exact Problem.shaped_of_runs (p.runs_course s.transition s.maxIterations) later shows
  · rw [(after_of_unreadable failed).2] at member
    rw [Request.blank_input member] at shows
    nomatch shows

theorem Solver.fits_report {solver : Solver} {r : Request} {report : Report α}
    (solved : solver.solve r.objective r.constraints r.direction = .ok report) :
    ∀ event ∈ report.trace, event.Fits r solver.transition := by
  rw [solve_eq] at solved
  obtain ⟨terminal, -, rfl⟩ := map_eq_ok_iff.mp solved
  intro event member
  rw [reportOf, Session.trace_after] at member
  rcases List.mem_append.mp member with shown | last
  · exact Session.fits_appended solver.session r event shown
  · obtain rfl := List.mem_singleton.mp last
    exact fun _ _ shows => nomatch shows

/-- Whatever a session has answered before, no request makes it or a solver read or write outside a
tableau, miscount columns or cut a matrix to a shape that does not fit, and every tableau that is
recorded has the shape of the program and the phase. -/
theorem safe_of_request (solver : Solver) (s : Session α) (r : Request) :
    (Session.Strict.run r.objective r.constraints r.direction : SessionM α (Terminal α)) =
      Session.run r.objective r.constraints r.direction ∧
    (Solver.Strict.solve solver r.objective r.constraints r.direction :
      Except (Fault α) (Report α)) = solver.solve r.objective r.constraints r.direction ∧
    (∀ fault, s.answer r = .error fault → ¬ fault.IsBreach) ∧
    (∀ fault : Fault α, solver.solve r.objective r.constraints r.direction = .error fault →
      ¬ fault.IsBreach) ∧
    (∀ event ∈ s.appended r, event.Fits r s.transition) ∧
    (∀ report : Report α, solver.solve r.objective r.constraints r.direction = .ok report →
      ∀ event ∈ report.trace, event.Fits r solver.transition) := by
  refine ⟨Session.Strict.run_eq .., Solver.Strict.solve_eq .., fun _ => Session.not_isBreach, ?_,
    s.fits_appended r, fun _ => Solver.fits_report⟩
  intro fault failed
  rw [Solver.solve_eq] at failed
  cases answer : (solver.session : Session α).answer r with
  | ok terminal =>
    rw [answer] at failed
    nomatch failed
  | error other =>
    rw [answer] at failed
    obtain rfl : other = fault := Except.error.inj failed
    exact Session.not_isBreach answer

end Simplex
