import Simplex.Proofs.Steps
import Simplex.Session

/-!
# The outcome of a run

What a run gives depends on the texts, the transition and the limit alone, not on what the session
has solved before: it is the outcome of two descents, each from a starting tableau that is a
function of the program and of the tableau that the descent before it ended in (`outcome_run`). What
it appends to the trace is a function of the same data (`gives_run`).
-/

namespace Simplex

/-- `P` holds of the result, if there is one. -/
def OnOk {ε β : Type} (e : Except ε β) (P : β → Prop) : Prop := ∀ value, e = .ok value → P value

/-- There is a result, and `P` holds of it. -/
def Yields {ε β : Type} (e : Except ε β) (P : β → Prop) : Prop := ∃ value, e = .ok value ∧ P value

instance instDecidableOnOk {ε β : Type} (e : Except ε β) (P : β → Prop)
    [∀ value, Decidable (P value)] : Decidable (OnOk e P) :=
  match e with
  | .error _ => isTrue fun _ found => nomatch found
  | .ok value => decidable_of_iff (P value)
    ⟨fun h _ found => Except.ok.inj found ▸ h, fun h => h value rfl⟩

instance instDecidableYields {ε β : Type} (e : Except ε β) (P : β → Prop)
    [∀ value, Decidable (P value)] : Decidable (Yields e P) :=
  match e with
  | .error _ => isFalse fun ⟨_, found, _⟩ => nomatch found
  | .ok value => decidable_of_iff (P value)
    ⟨fun h => ⟨value, rfl, h⟩, fun ⟨_, found, h⟩ => Except.ok.inj found ▸ h⟩

theorem map_eq_ok_iff {ε β γ : Type} {f : β → γ} {e : Except ε β} {result : γ} :
    e.map f = .ok result ↔ ∃ value, e = .ok value ∧ f value = result := by
  constructor
  · intro mapped
    cases e with
    | error _ => nomatch mapped
    | ok value => exact ⟨value, rfl, Except.ok.inj mapped⟩
  · rintro ⟨value, rfl, rfl⟩
    rfl

theorem map_eq_error_iff {ε β γ : Type} {f : β → γ} {e : Except ε β} {cause : ε} :
    e.map f = .error cause ↔ e = .error cause := by
  constructor
  · intro mapped
    cases e with
    | error other => exact congrArg Except.error (Except.error.inj mapped)
    | ok value => nomatch mapped
  · rintro rfl
    rfl

namespace Problem

variable {α : Type} [Scalar α]

def phaseOneStart (p : Problem α) : Transition → Except (Fault α) (Tableau α)
  | .rebuild => p.start .one
  | .carryBasis => p.start .one >>= Tableau.priceStart

def phaseOneEnd (p : Problem α) (transition : Transition) (limit : Nat) :
    Except (Fault α) (Tableau α) := do
  let first ← p.phaseOneStart transition
  (first.descend .one limit).ending

def phaseTwoStart (p : Problem α) (transition : Transition) (limit : Nat) :
    Except (Fault α) (Tableau α) := do
  let last ← p.phaseOneEnd transition limit
  match transition with
  | .rebuild => p.start .two
  | .carryBasis => (last.carryBasis p).outcome

def phaseTwoEnd (p : Problem α) (transition : Transition) (limit : Nat) :
    Except (Fault α) (Tableau α) := do
  let second ← p.phaseTwoStart transition limit
  (second.descend .two limit).ending

/-- The tableau that phase 2 begins with if phase 1 ended in `last`. -/
def startAfter (p : Problem α) (last : Tableau α) : Transition → Except (Fault α) (Tableau α)
  | .rebuild => p.start .two
  | .carryBasis => (last.carryBasis p).outcome

end Problem

/-! ### Courses -/

/-- What a step appends to the trace, and its result. -/
structure Course (α β : Type) where
  events : Trace α
  result : Except (Fault α) β

namespace Course

variable {α β γ δ : Type}

def ofExcept (result : Except (Fault α) β) : Course α β := { events := [], result }

def note (events : Trace α) : Course α Unit := { events, result := .ok () }

instance instMonadCourse : Monad (Course α) where
  pure value := ofExcept (.ok value)
  bind c next := match c.result with
    | .ok value => { next value with events := c.events ++ (next value).events }
    | .error fault => { events := c.events, result := .error fault }

theorem bind_of_ok {c : Course α β} {value : β} (h : c.result = .ok value)
    (next : β → Course α γ) :
    c >>= next = { next value with events := c.events ++ (next value).events } := by
  simp only [bind, h]

theorem bind_of_error {c : Course α β} {fault : Fault α} (h : c.result = .error fault)
    (next : β → Course α γ) : c >>= next = { events := c.events, result := .error fault } := by
  simp only [bind, h]

theorem result_bind (c : Course α β) (next : β → Course α γ) :
    (c >>= next).result = c.result >>= fun value => (next value).result := by
  cases h : c.result with
  | ok value => rw [bind_of_ok h]; rfl
  | error fault => rw [bind_of_error h]; rfl

@[simp] theorem note_bind (events : Trace α) (next : Unit → Course α β) :
    note events >>= next = { next () with events := events ++ (next ()).events } := rfl

@[simp] theorem ofExcept_ok_bind (value : β) (next : β → Course α γ) :
    ofExcept (.ok value) >>= next = next value := rfl

@[simp] theorem ofExcept_error_bind (fault : Fault α) (next : β → Course α γ) :
    ofExcept (.error fault) >>= next = ofExcept (.error fault) := rfl

theorem ofExcept_bind (r : Except (Fault α) β) (next : β → Except (Fault α) γ) :
    ofExcept (r >>= next) = ofExcept r >>= fun value => ofExcept (next value) := by
  cases r <;> rfl

theorem bind_pure (c : Course α β) : (c >>= fun value => ofExcept (.ok value)) = c := by
  cases h : c.result with
  | ok value =>
    rw [bind_of_ok h, ← h]
    simp [ofExcept]
  | error fault => rw [bind_of_error h, ← h]

theorem bind_assoc (c : Course α β) (f : β → Course α γ) (g : γ → Course α δ) :
    c >>= f >>= g = c >>= fun value => f value >>= g := by
  cases h : c.result with
  | error fault => rw [bind_of_error h, bind_of_error h, bind_of_error rfl]
  | ok value =>
    rw [bind_of_ok h, bind_of_ok h]
    cases h' : (f value).result with
    | ok later => rw [bind_of_ok h', bind_of_ok (by exact h'), List.append_assoc]
    | error fault => rw [bind_of_error h', bind_of_error (by exact h')]

end Course

/-- The course of a phase that begins with `t`. -/
def Tableau.course {α : Type} [Scalar α] (t : Tableau α) (phase : Phase) (limit : Nat) :
    Course α (Tableau α) where
  events := .initial phase t :: (t.descend phase limit).events phase
  result := (t.descend phase limit).ending

/-- The course of both phases. -/
def Problem.course {α : Type} [Scalar α] (p : Problem α) (transition : Transition) (limit : Nat) :
    Course α (Tableau α) := do
  let first ← .ofExcept (p.phaseOneStart transition)
  let last ← first.course .one limit
  .note [.phaseOneComplete]
  let second ← .ofExcept (p.startAfter last transition)
  second.course .two limit

theorem Problem.result_course {α : Type} [Scalar α] (p : Problem α) (transition : Transition)
    (limit : Nat) : (p.course transition limit).result = p.phaseTwoEnd transition limit := by
  simp only [course, Course.result_bind, phaseTwoEnd, phaseTwoStart, phaseOneEnd, bind_assoc]
  cases transition <;> rfl

namespace Session

/-- The course of a run on these texts. -/
def course {α : Type} [Scalar α] (transition : Transition) (limit : Nat) (objective : String)
    (constraints : List String) (direction : Direction) : Course α (Terminal α) := do
  .note (Event.ofInput objective constraints direction)
  let problem ← .ofExcept (Problem.ofTexts objective constraints direction)
  let tableau ← problem.course transition limit
  return { problem, tableau }

def outcome {α β : Type} : EStateM.Result (Fault α) (Session α) β → Except (Fault α) β
  | .ok value _ => .ok value
  | .error fault _ => .error fault

def final {α β : Type} : EStateM.Result (Fault α) (Session α) β → Session α
  | .ok _ s => s
  | .error _ s => s

theorem ok_of_outcome {α β γ : Type} {r : EStateM.Result (Fault α) (Session α) β} {f : β → γ}
    {value : γ} (h : (outcome r).map f = .ok value) : ∃ b s', r = .ok b s' ∧ f b = value := by
  cases r with
  | ok b s' => exact ⟨b, s', rfl, Except.ok.inj h⟩
  | error fault s' => nomatch h

theorem error_of_outcome {α β γ : Type} {r : EStateM.Result (Fault α) (Session α) β} {f : β → γ}
    {fault : Fault α} (h : (outcome r).map f = .error fault) : ∃ s', r = .error fault s' := by
  cases r with
  | ok b s' => nomatch h
  | error other s' =>
    obtain rfl : other = fault := Except.error.inj h
    exact ⟨s', rfl⟩

theorem outcome_bind {α β γ : Type} (m : SessionM α β) (f : β → SessionM α γ) (s : Session α) :
    outcome ((m >>= f) s) = match m s with
      | .ok value s' => outcome (f value s')
      | .error fault _ => .error fault := by
  show outcome (EStateM.bind m f s) = _
  rw [EStateM.bind]
  cases m s <;> rfl

/-- In every session of this configuration a step takes the course `c`, and it leaves the
configuration as it is. -/
def Gives {α β : Type} (transition : Transition) (limit : Nat) (m : SessionM α β)
    (c : Course α β) : Prop :=
  ∀ s : Session α, s.transition = transition → s.maxIterations = limit →
    outcome (m s) = c.result ∧ (final (m s)).trace = s.trace ++ c.events ∧
      (final (m s)).transition = transition ∧ (final (m s)).maxIterations = limit

section
variable {α β γ : Type} {transition : Transition} {limit : Nat}

theorem gives_bind {m : SessionM α β} {f : β → SessionM α γ} {c : Course α β}
    {next : β → Course α γ} (first : Gives transition limit m c)
    (second : ∀ value, c.result = .ok value → Gives transition limit (f value) (next value)) :
    Gives transition limit (m >>= f) (c >>= next) := by
  intro s same same'
  obtain ⟨gives, trace, kept, kept'⟩ := first s same same'
  have split : (m >>= f) s = EStateM.bind m f s := rfl
  rw [split, EStateM.bind]
  cases h : m s with
  | ok value s' =>
    rw [h] at gives trace kept kept'
    have result : c.result = .ok value := gives.symm
    obtain ⟨gives', trace', last⟩ := second value result s' kept kept'
    have both : s'.trace = s.trace ++ c.events := trace
    rw [Course.bind_of_ok result]
    refine ⟨gives', ?_, last⟩
    dsimp only
    rw [trace', both, List.append_assoc]
  | error fault s' =>
    rw [h] at gives trace kept kept'
    rw [Course.bind_of_error gives.symm]
    exact ⟨rfl, trace, kept, kept'⟩

theorem gives_seq {m : SessionM α β} {value : β} {f : β → SessionM α γ} {c : Course α γ}
    (first : Gives transition limit m (.ofExcept (.ok value)))
    (second : Gives transition limit (f value) c) : Gives transition limit (m >>= f) c := by
  rw [← Course.ofExcept_ok_bind value fun _ => c]
  refine gives_bind first fun other same => ?_
  obtain rfl := Except.ok.inj same
  exact second

theorem gives_noted {m : SessionM α β} {f : β → SessionM α β} {c : Course α β}
    (first : Gives transition limit m c)
    (second : ∀ value, Gives transition limit (f value) (.ofExcept (.ok value))) :
    Gives transition limit (m >>= f) c := by
  rw [← c.bind_pure]
  exact gives_bind first fun value _ => second value

theorem gives_get {f : Session α → SessionM α β} {c : Course α β}
    (h : ∀ s : Session α, s.transition = transition → s.maxIterations = limit →
      Gives transition limit (f s) c) : Gives transition limit (get >>= f) c :=
  fun s same same' => h s same same' s same same'

theorem gives_pure (value : β) :
    Gives transition limit (pure value : SessionM α β) (.ofExcept (.ok value)) :=
  fun _ same same' => ⟨rfl, (List.append_nil _).symm, same, same'⟩

theorem gives_push (events : List (Event α)) :
    Gives transition limit (push events) (.note events) :=
  fun _ same same' => ⟨rfl, rfl, same, same'⟩

theorem gives_tell (records : List (Record α)) :
    Gives transition limit (tell records) (.ofExcept (.ok ())) :=
  fun _ same same' => ⟨rfl, (List.append_nil _).symm, same, same'⟩

theorem gives_enter (stage : Stage) :
    Gives transition limit (enter stage : SessionM α Unit) (.ofExcept (.ok ())) :=
  fun _ same same' => ⟨rfl, (List.append_nil _).symm, same, same'⟩

theorem gives_ofExcept (result : Except (Fault α) β) :
    Gives transition limit (ofExcept result) (.ofExcept result) := by
  intro s same same'
  cases result <;> exact ⟨rfl, (List.append_nil _).symm, same, same'⟩

end

section
variable {α : Type} [Scalar α] {transition : Transition} {limit : Nat}

theorem gives_build (p : Problem α) (phase : Phase) :
    Gives transition limit (build p phase) (.ofExcept (p.start phase)) :=
  gives_noted (gives_ofExcept _) fun t => gives_seq (gives_tell _) (gives_pure t)

theorem gives_startPhaseOne (p : Problem α) :
    Gives transition limit (startPhaseOne p) (.ofExcept (p.phaseOneStart transition)) := by
  cases transition with
  | rebuild =>
    refine gives_noted (gives_build p .one) fun t => gives_get fun s same _ => ?_
    rw [same]
    exact gives_pure t
  | carryBasis =>
    rw [Problem.phaseOneStart, Course.ofExcept_bind]
    refine gives_bind (gives_build p .one) fun t _ => gives_get fun s same _ => ?_
    rw [same]
    exact gives_ofExcept _

theorem gives_iterate (phase : Phase) (t : Tableau α) :
    Gives transition limit (iterate phase t) (t.course phase limit) := by
  have course : t.course phase limit =
      .note [.initial phase t] >>= fun _ =>
        .note ((t.descend phase limit).events phase) >>= fun _ =>
          .ofExcept (t.descend phase limit).ending := by
    simp [Tableau.course, Course.ofExcept]
  rw [course]
  refine gives_bind (gives_push _) fun _ _ => gives_seq (gives_enter _) ?_
  refine gives_get fun s _ same => ?_
  rw [same]
  refine gives_seq (gives_tell _) (gives_bind (gives_push _) fun _ _ => ?_)
  exact gives_noted (gives_ofExcept _) fun optimum => gives_seq (gives_tell _) (gives_pure optimum)

theorem gives_startPhaseTwo (p : Problem α) (last : Tableau α) :
    Gives transition limit (startPhaseTwo p last) (.ofExcept (p.startAfter last transition)) := by
  refine gives_get fun s same _ => ?_
  rw [same]
  cases transition with
  | rebuild => exact gives_build p .two
  | carryBasis => exact gives_seq (gives_tell _) (gives_ofExcept _)

theorem gives_runPhases (objective : String) (constraints : List String) (direction : Direction) :
    Gives (α := α) transition limit (runPhases objective constraints direction)
      (course transition limit objective constraints direction) := by
  refine gives_seq (gives_enter _) (gives_bind (gives_push _) fun _ _ => ?_)
  refine gives_bind (gives_ofExcept _) fun problem _ => ?_
  refine gives_seq (gives_tell _) (gives_seq (gives_enter _) ?_)
  simp only [Problem.course, Course.bind_assoc]
  refine gives_bind (gives_startPhaseOne problem) fun first _ => ?_
  refine gives_bind (gives_iterate .one first) fun last _ => ?_
  refine gives_bind (gives_push _) fun _ _ => gives_seq (gives_tell _) ?_
  refine gives_seq (gives_enter _) (gives_bind (gives_startPhaseTwo problem last) ?_)
  intro second _
  refine gives_bind (gives_iterate .two second) fun tableau _ => ?_
  exact gives_seq (gives_enter _) (gives_pure _)

end

variable {α : Type} [Scalar α]

theorem gives_run (objective : String) (constraints : List String) (direction : Direction)
    (transition : Transition) (limit : Nat) :
    Gives (α := α) transition limit (run objective constraints direction)
      (course transition limit objective constraints direction) := by
  intro s same same'
  have phases := gives_runPhases objective constraints direction s same same'
  rw [run]
  cases h : runPhases objective constraints direction s with
  | ok terminal s' =>
    rw [h] at phases
    exact phases
  | error fault s' =>
    rw [h] at phases
    exact phases

theorem outcome_run (objective : String) (constraints : List String) (direction : Direction)
    (s : Session α) :
    outcome (run objective constraints direction s) = do
      let problem ← (Problem.ofTexts objective constraints direction : Except (Fault α) (Problem α))
      let tableau ← problem.phaseTwoEnd s.transition s.maxIterations
      return { problem, tableau } := by
  rw [(gives_run objective constraints direction _ _ s rfl rfl).1, course]
  simp only [Course.result_bind, Problem.result_course]
  rfl

section
variable {objective : String} {constraints : List String} {direction : Direction}
  {s s' : Session α} {p : Problem α}
  (read : Problem.ofTexts objective constraints direction = .ok p)
include read

theorem outcome_run_of_read :
    outcome (run objective constraints direction s) =
      (p.phaseTwoEnd s.transition s.maxIterations).map (Terminal.mk p) := by
  rw [outcome_run, read]
  show (p.phaseTwoEnd s.transition s.maxIterations >>= fun tableau =>
    Except.ok (Terminal.mk p tableau)) = _
  cases p.phaseTwoEnd s.transition s.maxIterations <;> rfl

theorem optimum_of_run {terminal : Terminal α}
    (solved : run objective constraints direction s = .ok terminal s') :
    terminal.problem = p ∧ p.phaseTwoEnd s.transition s.maxIterations = .ok terminal.tableau := by
  have same := outcome_run_of_read read (s := s)
  rw [solved] at same
  obtain ⟨tableau, ended, rfl⟩ := map_eq_ok_iff.mp same.symm
  exact ⟨rfl, ended⟩

theorem fault_of_run {fault : Fault α}
    (failed : run objective constraints direction s = .error fault s') :
    p.phaseTwoEnd s.transition s.maxIterations = .error fault := by
  have same := outcome_run_of_read read (s := s)
  rw [failed] at same
  exact map_eq_error_iff.mp same.symm

end

end Session

end Simplex
