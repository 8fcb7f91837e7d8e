import Simplex.Proofs.History
import Simplex.Proofs.Narration
import Simplex.Proofs.Replay

/-!
# Log and trace

A session writes its log and its trace at different places, and both tell the same story. The moves
in the log form a chain from the stage that a run begins in to the one that it ends in. In the stage
of a phase the log tells a pivot and its progress for each tableau that the trace records of this
phase, in order, and nowhere else (`writes_run`). So it is with every solve, whatever becomes of it
(`log_and_trace_of_solve`).
-/

namespace Simplex

section
variable {α : Type} [Scalar α] {phase : Phase}

/-! ### The descent of a phase -/

/-- The pivots of a descent, each with its progress. -/
def Descent.pivots (d : Descent α) : List (Record α) :=
  d.steps.zipIdx.flatMap fun (step, i) =>
    [.pivot step.row step.column, .progress (i + 1) step.result.objectiveValue]

theorem tells_descend (t : Tableau α) (phase : Phase) (limit : Nat) :
    Tells t (t.descend phase limit).pivots (t.descend phase limit).snapshots := by
  have along := t.descend_along phase limit
  rw [Descent.pivots, Descent.snapshots]
  generalize (t.descend phase limit).steps = steps at along
  generalize 0 = number
  induction steps generalizing t number with
  | nil => exact .nothing t
  | cons step rest ih =>
    obtain ⟨row, column, result⟩ := step
    obtain ⟨chosen, along⟩ := along
    obtain rfl : result = t.pivot row column := chosen.result_eq
    exact .step row column (number + 1) (ih _ along (number + 1))

theorem Descent.move?_records {phase : Phase} {start : Tableau α} {d : Descent α} :
    ∀ record ∈ d.records phase start, record.move? = none := by
  intro record member
  unfold records at member
  rw [List.mem_append, List.mem_append, List.mem_flatMap] at member
  obtain (head | ⟨numbered, -, line⟩) | limit := member
  · simp only [List.mem_cons, List.not_mem_nil, or_false] at head
    obtain rfl | rfl := head <;> rfl
  · simp only [Step.records, List.mem_cons, List.not_mem_nil, or_false] at line
    obtain rfl | rfl | rfl := line <;> rfl
  · split at limit
    · obtain rfl := List.mem_singleton.mp limit
      rfl
    · nomatch limit

theorem Descent.filter_records (phase : Phase) (start : Tableau α) (d : Descent α) :
    (d.records phase start).filter Record.isStep = d.pivots := by
  unfold records
  rw [List.filter_append, List.filter_append, List.filter_flatMap]
  split <;> exact List.append_nil _

/-- What the descent of a phase tells is what it shows. -/
theorem agrees_descend (t : Tableau α) (phase : Phase) (limit : Nat) (source : Stage)
    {rest : List (Record α)} (remarks : rest.all Record.isRemark = true) :
    Agrees [phase]
      (.moved source (.iterating phase) :: ((t.descend phase limit).records phase t ++ rest))
      (.initial phase t :: (t.descend phase limit).events phase) := by
  obtain ⟨still, silent⟩ := Record.of_remarks remarks
  have shown : Event.initial phase t :: (t.descend phase limit).events phase =
      Trace.ofPhase phase t (t.later phase limit) := t.events_course phase limit
  have unmoved : ∀ record ∈ (t.descend phase limit).records phase t ++ rest,
      record.move? = none := by
    intro record member
    exact (List.mem_append.mp member).elim (Descent.move?_records record) (still record)
  have others : rest.filter Record.isStep = [] :=
    List.filter_eq_nil_iff.mpr fun record member => by simp [silent record member]
  -- Behind the move the log stays in the stage of the phase, whatever stage was before it.
  have told : ∀ stages : Stage → Bool, ∀ current, Record.stepsWhile stages current
      (.moved source (.iterating phase) :: ((t.descend phase limit).records phase t ++ rest)) =
        if stages (.iterating phase) then (t.descend phase limit).pivots else [] := by
    intro stages current
    show Record.stepsWhile stages (.iterating phase) _ = _
    rw [Record.stepsWhile_of_still unmoved, List.filter_append, Descent.filter_records, others,
      List.append_nil]
  refine ⟨?_, ?_, ?_, ?_⟩
  · intro own member current
    obtain rfl := List.mem_singleton.mp member
    have begins : Trace.initialTableau? own
        (.initial own t :: (t.descend own limit).events own) = some t := by
      cases own <;> rfl
    have recorded : Trace.recorded own
        (.initial own t :: (t.descend own limit).events own) = (t.descend own limit).snapshots :=
      Descent.recorded_events own _
    rw [told, Recounts, begins, recorded, if_pos (by cases own <;> rfl)]
    exact tells_descend t own limit
  · intro other absent current
    have different : Stage.iterates other (.iterating phase) = false := by
      cases other <;> cases phase <;> first | rfl | exact absurd List.mem_cons_self absent
    rw [told, different]
    rfl
  · intro other absent
    rw [shown]
    exact Trace.without_ofPhase (fun same => absent (List.mem_singleton.mpr same.symm)) _ _
  · intro current
    rw [told]
    rfl

end

/-! ### Steps of a session -/

namespace Session

section
variable {α β γ : Type} [Scalar α] {phases others : List Phase}

/-- What is written from one state of a session to another one. -/
def Writes (phases : List Phase) (s s' : Session α) : Prop :=
  ∃ records events, s'.log = s.log ++ records ∧ s'.trace = s.trace ++ events ∧
    Leads s.stage (Record.moves records) s'.stage ∧ Agrees phases records events

theorem Writes.mono {s s' : Session α} (h : Writes phases s s')
    (subset : ∀ phase ∈ phases, phase ∈ others) : Writes others s s' := by
  obtain ⟨records, events, log, trace, leads, agrees⟩ := h
  exact ⟨records, events, log, trace, leads, agrees.mono subset⟩

theorem Writes.trans {s between s' : Session α} (h : Writes phases s between)
    (h' : Writes others between s') (apart : ∀ phase ∈ phases, phase ∉ others) :
    Writes (phases ++ others) s s' := by
  obtain ⟨records, events, log, trace, leads, agrees⟩ := h
  obtain ⟨more, later, log', trace', leads', agrees'⟩ := h'
  refine ⟨records ++ more, events ++ later, ?_, ?_, ?_, agrees.append agrees' apart⟩
  · rw [log', log, List.append_assoc]
  · rw [trace', trace, List.append_assoc]
  · rw [Record.moves_append]
    exact leads.append leads'

/-- However it ends, the step writes of these phases. -/
def WritesOf (phases : List Phase) (m : SessionM α β) : Prop := ∀ s, Writes phases s (final (m s))

theorem writes_bind {m : SessionM α β} {f : β → SessionM α γ} (first : WritesOf phases m)
    (second : ∀ value, WritesOf others (f value)) (apart : ∀ phase ∈ phases, phase ∉ others) :
    WritesOf (phases ++ others) (m >>= f) := by
  intro s
  have before := first s
  have split : (m >>= f) s = EStateM.bind m f s := rfl
  rw [split, EStateM.bind]
  cases ran : m s with
  | ok value between =>
    rw [ran] at before
    exact before.trans (second value between) apart
  | error fault between =>
    rw [ran] at before
    exact before.mono fun _ => List.mem_append_left others

/-- A step that tells of no phase, before another one. -/
theorem writes_seq {m : SessionM α β} {f : β → SessionM α γ} (first : WritesOf [] m)
    (second : ∀ value, WritesOf others (f value)) : WritesOf others (m >>= f) :=
  writes_bind first second nofun

theorem writes_get {f : Session α → SessionM α β} (h : ∀ s, WritesOf phases (f s)) :
    WritesOf phases (get >>= f) := fun s => h s s

theorem writes_pure (value : β) : WritesOf [] (pure value : SessionM α β) := fun _ =>
  ⟨[], [], (List.append_nil _).symm, (List.append_nil _).symm, rfl, .of_silent nofun nofun⟩

theorem writes_ofExcept (result : Except (Fault α) β) : WritesOf [] (ofExcept result) := by
  intro s
  cases result <;> exact writes_pure (α := α) () s

theorem writes_push {events : List (Event α)} (blank : ∀ event ∈ events, event.tableau? = none) :
    WritesOf [] (push events) := fun _ =>
  ⟨[], events, (List.append_nil _).symm, rfl, rfl, .of_silent nofun blank⟩

theorem writes_tell {records : List (Record α)} (remarks : records.all Record.isRemark = true) :
    WritesOf [] (tell records) := by
  intro s
  obtain ⟨still, silent⟩ := Record.of_remarks remarks
  refine ⟨records, [], rfl, (List.append_nil _).symm, ?_, .of_silent silent nofun⟩
  rw [Record.moves_eq_nil still]
  rfl

theorem writes_enter (stage : Stage) : WritesOf [] (enter stage : SessionM α Unit) := fun s =>
  ⟨[.moved s.stage stage], [], rfl, (List.append_nil _).symm, ⟨rfl, rfl⟩,
    .of_silent (List.forall_mem_singleton.mpr rfl) nofun⟩

theorem writes_build (p : Problem α) (phase : Phase) : WritesOf [] (build p phase) :=
  writes_seq (writes_ofExcept _) fun t => writes_seq (writes_tell rfl) fun _ => writes_pure t

theorem writes_startPhaseOne (p : Problem α) : WritesOf [] (startPhaseOne p) := by
  refine writes_seq (writes_build p .one) fun t => writes_get fun s => ?_
  cases s.transition with
  | rebuild => exact writes_pure t
  | carryBasis => exact writes_ofExcept _

omit [Scalar α] in
/-- The pivots between the phases are told as evictions. -/
theorem all_isRemark_handover (h : Handover α) : h.records.all Record.isRemark = true := by
  unfold Handover.records
  rw [List.all_append, List.all_map]
  have evictions : h.evictions.all (Record.isRemark ∘ Record.evicted (α := α)) = true :=
    List.all_eq_true.mpr fun _ _ => rfl
  rw [evictions]
  split <;> rfl

theorem writes_startPhaseTwo (p : Problem α) (last : Tableau α) :
    WritesOf [] (startPhaseTwo p last) := by
  refine writes_get fun s => ?_
  cases s.transition with
  | rebuild => exact writes_build p .two
  | carryBasis =>
    exact writes_seq (writes_tell (all_isRemark_handover _)) fun _ => writes_ofExcept _

theorem writes_iterate (phase : Phase) (t : Tableau α) : WritesOf [phase] (iterate phase t) := by
  intro s
  -- What is told behind the descent, if anything, does not matter.
  have written : ∀ rest : List (Record α), rest.all Record.isRemark = true →
      ∀ {s' : Session α}, s'.stage = .iterating phase →
        s'.trace = s.trace ++
          .initial phase t :: (t.descend phase s.maxIterations).events phase →
        s'.log = s.log ++ .moved s.stage (.iterating phase) ::
          ((t.descend phase s.maxIterations).records phase t ++ rest) →
        Writes [phase] s s' := by
    intro rest remarks s' stage trace log
    refine ⟨_, _, log, trace, ?_, agrees_descend t phase s.maxIterations s.stage remarks⟩
    rw [stage, Record.moves_moved, Record.moves_append,
      Record.moves_eq_nil Descent.move?_records, Record.moves_eq_nil (Record.of_remarks remarks).1]
    exact ⟨rfl, rfl⟩
  rw [iterate_apply]
  dsimp only
  cases (t.descend phase s.maxIterations).ending with
  | error fault => exact written [] rfl rfl rfl (by rw [List.append_nil]; rfl)
  | ok optimum => exact written [_] rfl rfl rfl (List.append_assoc ..)

theorem writes_runPhases (objective : String) (constraints : List String)
    (direction : Direction) :
    WritesOf (α := α) [.one, .two] (runPhases objective constraints direction) := by
  have input : ∀ event ∈ (Event.ofInput objective constraints direction : Trace α),
      event.tableau? = none := fun _ =>
    Request.blank_input (r := { objective, constraints, direction })
  have apart : ∀ phase ∈ [Phase.one], phase ∉ [Phase.two] :=
    List.forall_mem_singleton.mpr (by simp)
  refine writes_seq (writes_enter _) fun _ => writes_seq (writes_push input) fun _ => ?_
  refine writes_seq (writes_ofExcept _) fun problem => writes_seq (writes_tell rfl) fun _ => ?_
  refine writes_seq (writes_enter _) fun _ => ?_
  refine writes_seq (writes_startPhaseOne problem) fun first => ?_
  refine writes_bind (writes_iterate .one first) (fun last => ?_) apart
  refine writes_seq (writes_push (List.forall_mem_singleton.mpr rfl)) fun _ => ?_
  refine writes_seq (writes_tell rfl) fun _ => writes_seq (writes_enter _) fun _ => ?_
  refine writes_seq (writes_startPhaseTwo problem last) fun second => ?_
  refine writes_bind (writes_iterate .two second) (fun tableau => ?_) fun _ _ => List.not_mem_nil
  exact writes_seq (writes_enter _) fun _ => writes_pure _

/-- A run accounts in its log for both phases, up to the pivot that it comes to. -/
theorem writes_run (objective : String) (constraints : List String) (direction : Direction) :
    WritesOf (α := α) [.one, .two] (run objective constraints direction) := by
  intro s
  have phases := writes_runPhases objective constraints direction s
  rw [run]
  cases ran : runPhases objective constraints direction s with
  | ok terminal s' =>
    rw [ran] at phases
    exact phases
  | error fault s' =>
    rw [ran] at phases
    have failure : WritesOf [] (fail fault : SessionM α (Terminal α)) :=
      writes_seq (writes_tell rfl) fun _ =>
        writes_seq (writes_enter _) fun _ => writes_ofExcept (.error fault)
    exact phases.trans (failure s') fun _ _ => List.not_mem_nil

end

end Session

section
variable {α : Type} [Scalar α]

theorem Stage.ofAnswer_map {ε β γ : Type} (f : β → γ) (answer : Except ε β) :
    ofAnswer (answer.map f) = ofAnswer answer := by
  cases answer <;> rfl

theorem Solver.all_isRemark_conclusion (solver : Solver)
    (answer : Except (Fault α) (Terminal α)) :
    (solver.conclusion answer).all Record.isRemark = true := by
  cases answer <;> rfl

/-- Log and trace of a solve, whatever its result. The moves in the log form a chain from the first
stage to the one of the result. In each phase the pivots in the log, each with its progress, are
those that lead through the tableaux in the trace, and none is told outside of the phases. The trace
of a report is this one with the solution behind it. -/
theorem log_and_trace_of_solve (solver : Solver) (r : Request) :
    let solved : Except (Fault α) (Report α) × List (Record α) :=
      solver.solveLogged r.objective r.constraints r.direction
    let trace := (solver.session.after r : Session α).trace
    Leads .parsingInput (Record.moves solved.2) (.ofAnswer solved.1) ∧
    (∀ phase, Recounts phase
      (Record.stepsWhile (Stage.iterates phase) .parsingInput solved.2) trace) ∧
    Record.stepsWhile Stage.rests .parsingInput solved.2 = [] ∧
    OnOk solved.1 fun report => report.trace = trace ++ [.finalReport report.solution] := by
  intro solved trace
  obtain ⟨records, events, log, shown, leads, agrees⟩ :=
    Session.writes_run r.objective r.constraints r.direction (solver.session : Session α)
  -- A solver begins with an empty log and an empty trace in the first stage.
  have log : (solver.session.after r : Session α).log = records := log
  have shown : trace = events := shown
  have stage := (solver.session : Session α).stage_after r
  have result : solved = _ := solver.solveLogged_eq r
  obtain ⟨still, silent⟩ := Record.of_remarks
    (solver.all_isRemark_conclusion (solver.session.answer r : Except (Fault α) _))
  have steps : ∀ stages : Stage → Bool, Record.stepsWhile stages .parsingInput solved.2 =
      Record.stepsWhile stages .parsingInput records := by
    intro stages
    obtain ⟨between, split⟩ := Record.stepsWhile_append stages .parsingInput records
      (solver.conclusion (solver.session.answer r))
    rw [result, log]
    dsimp only
    rw [split, Record.stepsWhile_of_silent silent, List.append_nil]
  refine ⟨?_, fun phase => ?_, ?_, ?_⟩
  · rw [result, log, Stage.ofAnswer_map, ← stage]
    dsimp only
    rw [Record.moves_append, Record.moves_eq_nil still, List.append_nil]
    exact leads
  · rw [steps, shown]
    exact agrees.told phase (by cases phase <;> simp) .parsingInput
  · rw [steps]
    exact agrees.within .parsingInput
  · intro report reported
    rw [result] at reported
    obtain ⟨terminal, -, rfl⟩ := map_eq_ok_iff.mp reported
    rfl

end

end Simplex
