import Simplex.Proofs.Requests

/-!
# The history of a session

Whatever a session has answered before, a request appends its input and then what belongs to the
exit that its answer tells: nothing for a text that cannot be read, and otherwise the tableaux of
the phases as far as they come (`exit_of_request`). The stage tells success from failure
(`stage_after`).
-/

namespace Simplex

variable {α : Type} [Scalar α]

/-! ### Exits -/

/-- The tableaux of a phase lead to an optimal one. -/
structure Completes (limit : Nat) (first : Tableau α) (later : List (Tableau α)) : Prop where
  within : later.length ≤ limit
  optimal : (later.getLastD first).isOptimal = true

/-- The tableaux of a phase lead to one that is not optimal, and the fault is of this phase. -/
structure Stops (limit : Nat) (phase : Phase) (first : Tableau α) (later : List (Tableau α))
    (fault : Fault α) : Prop where
  within : later.length ≤ limit
  ends : (later.getLastD first).Ends phase limit (.error fault)
  full : fault = .iterationLimit phase limit → later.length = limit

/-- What is shown behind the input of a request, and the answer to it. -/
inductive Exit (limit : Nat) (r : Request) : Trace α → Except (Fault α) (Terminal α) → Prop
  | unreadable {position : Option Nat} {cause : SyntaxFault} (flaw : r.Flawed α position cause) :
    Exit limit r [] (.error (.unreadable position cause))
  | unconstrained (readable : r.Readable α) (empty : r.constraints = []) :
    Exit limit r [] (.error .noConstraints)
  | phaseOne {first : Tableau α} {later : List (Tableau α)} {fault : Fault α}
    (readable : r.Readable α) (some : r.constraints ≠ [])
    (stops : Stops limit .one first later fault) :
    Exit limit r (Trace.ofPhase .one first later) (.error fault)
  | infeasible {first : Tableau α} {later : List (Tableau α)} {artificialSum : α}
    (readable : r.Readable α) (some : r.constraints ≠ [])
    (complete : Completes limit first later) :
    Exit limit r (Trace.ofPhase .one first later ++ [.phaseOneComplete])
      (.error (.infeasible artificialSum))
  | phaseTwo {first second : Tableau α} {later later' : List (Tableau α)} {fault : Fault α}
    (readable : r.Readable α) (some : r.constraints ≠ [])
    (complete : Completes limit first later) (stops : Stops limit .two second later' fault) :
    Exit limit r (Trace.ofPhases first later second later') (.error fault)
  | solved {problem : Problem α} {first second : Tableau α} {later later' : List (Tableau α)}
    (readable : r.Readable α) (some : r.constraints ≠ [])
    (complete : Completes limit first later) (complete' : Completes limit second later') :
    Exit limit r (Trace.ofPhases first later second later')
      (.ok { problem, tableau := later'.getLastD second })

def Stage.ofAnswer {ε β : Type} : Except ε β → Stage
  | .ok _ => .done
  | .error _ => .failed

/-! ### Phases -/

namespace Tableau

variable {t last : Tableau α} {phase : Phase} {limit : Nat}

theorem length_later_le (t : Tableau α) (phase : Phase) (limit : Nat) :
    (t.later phase limit).length ≤ limit := by
  rw [length_later]
  exact Descent.length_run_le ..

theorem completes_of_descend (h : (t.descend phase limit).ending = .ok last) :
    Completes limit t (t.later phase limit) ∧ last = (t.later phase limit).getLastD t := by
  obtain ⟨rfl, optimal⟩ := optimal_of_descend h
  rw [reached_eq] at optimal ⊢
  exact ⟨⟨t.length_later_le phase limit, optimal⟩, rfl⟩

theorem stops_of_descend {fault : Fault α} (h : (t.descend phase limit).ending = .error fault) :
    Stops limit phase t (t.later phase limit) fault where
  within := t.length_later_le phase limit
  ends := by
    have ends := t.descend_ends phase limit
    rwa [h, reached_eq] at ends
  full := by
    rintro rfl
    rw [length_later]
    exact Descent.length_run_of_limit h

end Tableau

theorem exit_of_runs {r : Request} {p : Problem α} {transition : Transition} {limit : Nat}
    {c : Course α (Tableau α)} (readable : r.Readable α)
    (length : p.constraints.length = r.constraints.length) (runs : p.Runs transition limit c) :
    Exit limit r c.events (c.result.map (Terminal.mk p)) := by
  have same : p.constraints = [] ↔ r.constraints = [] := by
    rw [← List.length_eq_zero_iff, length, List.length_eq_zero_iff]
  cases runs with
  | unconstrained empty => exact .unconstrained readable (same.mp empty)
  | phaseOne some ended =>
    rw [Tableau.events_course]
    exact .phaseOne readable (mt same.mpr some) (Tableau.stops_of_descend ended)
  | infeasible some ended =>
    rw [Tableau.events_course]
    exact .infeasible readable (mt same.mpr some) (Tableau.completes_of_descend ended).1
  | @phaseTwo last second some ended =>
    have complete := (Tableau.completes_of_descend ended).1
    dsimp only
    rw [Tableau.events_course, Tableau.events_course]
    -- how phase 2 ends tells the two exits behind it apart
    cases ended' : (second.descend .two limit).ending with
    | error fault =>
      exact .phaseTwo readable (mt same.mpr some) complete (Tableau.stops_of_descend ended')
    | ok tableau =>
      obtain ⟨complete', rfl⟩ := Tableau.completes_of_descend ended'
      exact .solved readable (mt same.mpr some) complete complete'

namespace Session

/-! ### Stages -/

section
variable {α β γ : Type} {stage : Stage}

/-- Where it succeeds, the step leaves the session in this stage. -/
def EndsIn (stage : Stage) (m : SessionM α β) : Prop :=
  ∀ s value s', m s = .ok value s' → s'.stage = stage

theorem endsIn_bind {m : SessionM α β} {f : β → SessionM α γ}
    (h : ∀ value, EndsIn stage (f value)) : EndsIn stage (m >>= f) := by
  intro s value s' ran
  have split : (m >>= f) s = EStateM.bind m f s := rfl
  rw [split, EStateM.bind] at ran
  cases first : m s with
  | ok before between =>
    rw [first] at ran
    exact h before between value s' ran
  | error fault between =>
    rw [first] at ran
    nomatch ran

theorem endsIn_enter (value : β) :
    EndsIn stage (enter stage >>= fun _ => (pure value : SessionM α β)) := by
  rintro s _ _ ⟨⟩
  rfl

end

theorem endsIn_runPhases (objective : String) (constraints : List String)
    (direction : Direction) :
    EndsIn (α := α) .done (runPhases objective constraints direction) := by
  refine endsIn_bind fun _ => endsIn_bind fun _ => endsIn_bind fun problem => ?_
  refine endsIn_bind fun _ => endsIn_bind fun _ => endsIn_bind fun first => ?_
  refine endsIn_bind fun last => endsIn_bind fun _ => endsIn_bind fun _ => ?_
  exact endsIn_bind fun _ => endsIn_bind fun second => endsIn_bind fun tableau => endsIn_enter _

theorem stage_after (s : Session α) (r : Request) :
    (s.after r).stage = .ofAnswer (s.answer r) := by
  rw [after, answer, run]
  cases ran : runPhases r.objective r.constraints r.direction s with
  | ok terminal s' => exact endsIn_runPhases _ _ _ s terminal s' ran
  | error fault s' => rfl

/-! ### Runs -/

theorem exit_of_request (s : Session α) (r : Request) :
    ∃ events, s.appended r = r.input ++ events ∧ Exit s.maxIterations r events (s.answer r) := by
  obtain ⟨readable, p, read, length⟩ | ⟨position, cause, flaw, failed⟩ :=
    r.problem_cases (α := α)
  · obtain ⟨answer, appended⟩ := after_of_read (s := s) read
    refine ⟨_, appended, ?_⟩
    rw [answer]
    exact exit_of_runs readable length (p.runs_course s.transition s.maxIterations)
  · obtain ⟨answer, appended⟩ := after_of_unreadable (s := s) failed
    refine ⟨[], by rw [appended, List.append_nil], ?_⟩
    rw [answer]
    exact .unreadable flaw

/-- Each request appends its objective, its constraints with their positions, its direction and an
exit that fits its answer, after any others. -/
theorem history_of_session (s : Session α) (earlier : List Request) (r : Request) :
    let before := s.afterAll earlier
    ∃ events, (before.after r).trace = before.trace ++
        (.objective r.objective :: r.constraints.mapIdx (fun i text => .constraint (i + 1) text) ++
          .direction r.direction :: events) ∧
      Exit s.maxIterations r events (before.answer r) ∧
      (before.after r).stage = .ofAnswer (before.answer r) := by
  intro before
  obtain ⟨events, appended, exit⟩ := before.exit_of_request r
  rw [(s.afterAll_spec earlier).2] at exit
  refine ⟨events, ?_, exit, before.stage_after r⟩
  rw [trace_after, appended, r.input_append]

end Session

end Simplex
