import Simplex.Proofs.Requests
import Simplex.Solver

/-!
# Traces as derivations

The tableaux of a trace can be computed again from the program alone: each is a starting tableau or
the pivot of the one shown before it (`Trace.Replays`). The last one is the optimal tableau of the
answer (`last_of_answer`), and a solver reports what it reads there (`solve_eq`).
-/

namespace Simplex

section
variable {α : Type}

namespace Trace

/-- The last tableau that a trace shows, or else the one shown before it. -/
def shown (before : Option (Phase × Tableau α)) : Trace α → Option (Phase × Tableau α)
  | [] => before
  | event :: rest => shown (event.tableau?.or before) rest

theorem shown_append (before : Option (Phase × Tableau α)) (first second : Trace α) :
    shown before (first ++ second) = shown (shown before first) second := by
  induction first generalizing before with
  | nil => rfl
  | cons event rest ih => exact ih _

theorem shown_of_blank {before : Option (Phase × Tableau α)} {trace : Trace α}
    (blank : ∀ event ∈ trace, event.tableau? = none) : shown before trace = before := by
  induction trace with
  | nil => rfl
  | cons event rest ih =>
    rw [shown, blank event List.mem_cons_self, Option.none_or]
    exact ih fun other member => blank other (List.mem_cons_of_mem event member)

theorem shown_iterationsFrom (phase : Phase) (t : Tableau α) (number : Nat)
    (later : List (Tableau α)) :
    shown (some (phase, t)) (iterationsFrom phase number later) =
      some (phase, later.getLastD t) := by
  induction later generalizing t number with
  | nil => rfl
  | cons u rest ih =>
    rw [List.getLastD_cons]
    exact ih u (number + 1)

theorem shown_ofPhase (before : Option (Phase × Tableau α)) (phase : Phase) (first : Tableau α)
    (later : List (Tableau α)) :
    shown before (ofPhase phase first later) = some (phase, later.getLastD first) :=
  shown_iterationsFrom phase first 1 later

end Trace

end

variable {α : Type} [Scalar α]

/-- How the program and the tableau shown before an event account for the one that it shows. -/
def Event.Justified (p : Problem α) (transition : Transition)
    (shown : Option (Phase × Tableau α)) : Event α → Prop
  | initial .one t => ∃ built, p.start .one = .ok built ∧
      t = match transition with
        | .rebuild => built
        | .carryBasis => built.priceOut built.startingBasis
  | initial .two t => match transition with
    | .rebuild => p.start .two = .ok t
    | .carryBasis => ∃ last, shown = some (.one, last) ∧ (last.carryBasis p).outcome = .ok t
  | iteration phase _ t => ∃ before, shown = some (phase, before) ∧ before.isOptimal = false ∧
      ∃ column row, before.enteringColumn = some column ∧ before.leavingRow column = some row ∧
        t = before.pivot row column
  | _ => True

namespace Trace

/-- Every event of a trace is justified by what is shown before it. -/
def Replays (p : Problem α) (transition : Transition) (before : Option (Phase × Tableau α)) :
    Trace α → Prop
  | [] => True
  | event :: rest =>
    event.Justified p transition before ∧ Replays p transition (event.tableau?.or before) rest

variable {p : Problem α} {transition : Transition} {before : Option (Phase × Tableau α)}
  {phase : Phase} {t : Tableau α}

theorem replays_append {first second : Trace α} :
    Replays p transition before (first ++ second) ↔
      Replays p transition before first ∧ Replays p transition (shown before first) second := by
  induction first generalizing before with
  | nil => exact (and_iff_right trivial).symm
  | cons event rest ih => exact (and_congr_right fun _ => ih).trans and_assoc.symm

theorem replays_of_blank {trace : Trace α} (blank : ∀ event ∈ trace, event.tableau? = none) :
    Replays p transition before trace := by
  induction trace with
  | nil => trivial
  | cons event rest ih =>
    have none := blank event List.mem_cons_self
    refine ⟨?_, ?_⟩
    · cases event with
      | initial phase t | iteration phase number t => nomatch none
      | _ => trivial
    · rw [none, Option.none_or]
      exact ih fun other member => blank other (List.mem_cons_of_mem event member)

theorem replays_iterationsFrom {steps : List (Step α)} (along : t.Along Tableau.Chosen steps)
    (number : Nat) :
    Replays p transition (some (phase, t))
      (iterationsFrom phase number (steps.map (·.result))) := by
  induction steps generalizing t number with
  | nil => trivial
  | cons step rest ih =>
    obtain ⟨chosen, along⟩ := along
    exact ⟨⟨t, rfl, chosen.unfinished, step.column, step.row, chosen.entering, chosen.leaving,
      chosen.result_eq⟩, ih along (number + 1)⟩

theorem replays_ofPhase (start : (Event.initial phase t).Justified p transition before)
    (limit : Nat) : Replays p transition before (ofPhase phase t (t.later phase limit)) :=
  ⟨start, replays_iterationsFrom (t.descend_along phase limit) 1⟩

end Trace

namespace Problem

variable {p : Problem α} {transition : Transition} {limit : Nat}

theorem justified_firstTableau (some : p.constraints ≠ []) (before : Option (Phase × Tableau α)) :
    (Event.initial .one (p.firstTableau transition)).Justified p transition before := by
  refine ⟨p.tableau .one, start_ok some .one, ?_⟩
  cases transition <;> rfl

theorem justified_startAfter {last second : Tableau α}
    (handed : p.startAfter last transition = .ok second) :
    (Event.initial .two second).Justified p transition (some (.one, last)) := by
  cases transition with
  | rebuild => exact handed
  | carryBasis => exact ⟨last, rfl, handed⟩

/-- The courses of the two phases replay, and a success is the tableau shown last. -/
theorem replays_of_runs {c : Course α (Tableau α)} (runs : p.Runs transition limit c) :
    Trace.Replays p transition none c.events ∧ OnOk c.result fun t =>
      Trace.shown none c.events = some (.two, t) ∧ t.isOptimal = true ∧
        t.layout = p.secondLayout transition := by
  cases runs with
  | unconstrained => exact ⟨trivial, nofun⟩
  | phaseOne some ended =>
    rw [Tableau.events_course]
    exact ⟨Trace.replays_ofPhase (justified_firstTableau some none) limit, nofun⟩
  | infeasible some ended =>
    rw [Tableau.events_course]
    exact ⟨Trace.replays_append.mpr
      ⟨Trace.replays_ofPhase (justified_firstTableau some none) limit, trivial, trivial⟩, nofun⟩
  | @phaseTwo last second some ended handed =>
    -- what phase 1 shows last is the tableau that the handover starts from
    have first : Trace.shown none (Trace.ofPhase .one (p.firstTableau transition)
        ((p.firstTableau transition).later .one limit)) = .some (.one, last) := by
      rw [Trace.shown_ofPhase, (Tableau.optimal_of_descend ended).1, Tableau.reached_eq]
      rfl
    dsimp only
    rw [Tableau.events_course, Tableau.events_course]
    refine ⟨Trace.replays_append.mpr
      ⟨Trace.replays_ofPhase (justified_firstTableau some none) limit, trivial, ?_⟩, ?_⟩
    · rw [first]
      exact Trace.replays_ofPhase (justified_startAfter handed) limit
    · intro t ended'
      obtain ⟨reached, optimal⟩ := Tableau.optimal_of_descend ended'
      refine ⟨?_, optimal, ?_⟩
      · rw [Trace.shown_append, Trace.shown, Trace.shown_ofPhase, reached, Tableau.reached_eq]
        rfl
      · rw [reached, Tableau.layout_reached]
        exact layout_startAfter some (layout_of_phaseOne ended) handed

end Problem

/-! ### Answers and reports -/

namespace Session

theorem shown_appended {s : Session α} {r : Request} {c : Course α (Tableau α)}
    (appended : s.appended r = r.input ++ c.events) :
    Trace.shown none (s.appended r) = Trace.shown none c.events := by
  rw [appended, Trace.shown_append, Trace.shown_of_blank fun _ => Request.blank_input]

theorem replays_appended (s : Session α) (r : Request) :
    match r.problem α with
    | .error _ => ∀ event ∈ s.appended r, event.tableau? = none
    | .ok p => Trace.Replays p s.transition none (s.appended r) := by
  cases read : r.problem α with
  | error fault =>
    rw [(after_of_unreadable read).2]
    exact fun _ => Request.blank_input
  | ok p =>
    have blank : ∀ event ∈ (r.input : Trace α), event.tableau? = none :=
      fun _ => Request.blank_input
    rw [(after_of_read read).2]
    refine Trace.replays_append.mpr ⟨Trace.replays_of_blank blank, ?_⟩
    rw [Trace.shown_of_blank blank]
    exact (Problem.replays_of_runs (p.runs_course s.transition s.maxIterations)).1

theorem last_of_answer {s : Session α} {r : Request} {terminal : Terminal α}
    (solved : s.answer r = .ok terminal) :
    Trace.shown none (s.appended r) = some (.two, terminal.tableau) ∧
      terminal.tableau.isOptimal = true ∧
      terminal.tableau.layout = terminal.problem.secondLayout s.transition := by
  obtain ⟨-, ended, appended⟩ := answer_ok solved
  rw [shown_appended appended]
  exact (Problem.replays_of_runs (terminal.problem.runs_course _ _)).2 _ ended

end Session

namespace Solver

/-- A solver reports what it reads from the tableau of the answer, behind the trace of its run. -/
def reportOf (solver : Solver) (s : Session α) (terminal : Terminal α) : Report α :=
  let solution := terminal.tableau.solution terminal.problem solver.readout
  { trace := s.trace ++ [.finalReport solution], solution }

/-- What a solver tells behind the log of its run. -/
def conclusion (solver : Solver) : Except (Fault α) (Terminal α) → List (Record α)
  | .ok terminal =>
    [.optimumFound (terminal.tableau.solution terminal.problem solver.readout).objective]
  | .error _ => []

theorem solveLogged_eq (solver : Solver) (r : Request) :
    solver.solveLogged r.objective r.constraints r.direction =
      ((solver.session.answer r).map
          (solver.reportOf (solver.session.after r) : Terminal α → Report α),
        (solver.session.after r).log ++ solver.conclusion (solver.session.answer r)) := by
  rw [Session.answer, Session.after]
  simp only [solveLogged, solveIn, bind, EStateM.bind]
  cases ran : Session.run r.objective r.constraints r.direction (solver.session : Session α) with
  | error fault s' => exact congrArg (Prod.mk _) (List.append_nil _).symm
  | ok terminal s' =>
    have solved : solver.session.answer r = .ok terminal := by
      rw [Session.answer, ran]
      rfl
    obtain ⟨-, -, layout⟩ := Session.last_of_answer solved
    have readable : Tableau.Checked.solution terminal.tableau terminal.problem solver.readout =
        .ok (terminal.tableau.solution terminal.problem solver.readout) := by
      refine if_neg ?_
      rintro ⟨-, narrow⟩
      rw [layout] at narrow
      exact absurd (terminal.problem.length_names_le solver.session.transition) narrow.not_ge
    dsimp only
    rw [readable]
    rfl

theorem solve_eq (solver : Solver) (r : Request) :
    solver.solve r.objective r.constraints r.direction =
      (solver.session.answer r).map
        (solver.reportOf (solver.session.after r) : Terminal α → Report α) :=
  congrArg Prod.fst (solver.solveLogged_eq r)

end Solver

/-- What a request appends derives the answer from the program alone, and a solver reports what it
reads from the tableau that the derivation ends in. -/
theorem derivation_of_answer (solver : Solver) (s : Session α) (r : Request) :
    (match r.problem α with
      | .error _ => ∀ event ∈ s.appended r, event.tableau? = none
      | .ok p => Trace.Replays p s.transition none (s.appended r)) ∧
    (OnOk (s.answer r) fun terminal => r.problem α = .ok terminal.problem ∧
      Trace.shown none (s.appended r) = some (.two, terminal.tableau) ∧
      terminal.tableau.isOptimal = true) ∧
    solver.solve r.objective r.constraints r.direction =
      (solver.session.answer r).map
        (solver.reportOf (solver.session.after r) : Terminal α → Report α) := by
  refine ⟨s.replays_appended r, fun terminal solved => ?_, solver.solve_eq r⟩
  obtain ⟨shown, optimal, -⟩ := Session.last_of_answer solved
  exact ⟨(Session.answer_ok solved).1, shown, optimal⟩

end Simplex
