import Simplex.Proofs.Course

/-!
# Requests

A request is the texts of one program. The first text of it that cannot be read, if there is one,
is what the answer blames (`problem_cases`). What a session answers and what it appends to its trace
do not depend on its history (`answer_eq`, `appended_eq`).
-/

namespace Simplex

structure Request where
  objective : String
  constraints : List String
  direction : Direction
  deriving Repr, DecidableEq

namespace Request

def input {α : Type} (r : Request) : Trace α := Event.ofInput r.objective r.constraints r.direction

/-- The input is the objective, the constraints with their positions from 1, and the direction. -/
theorem input_append {α : Type} (r : Request) (events : Trace α) :
    r.input ++ events = .objective r.objective ::
      r.constraints.mapIdx (fun i text => .constraint (i + 1) text) ++
        .direction r.direction :: events := by
  rw [input, Event.ofInput, List.append_assoc, List.mapIdx_eq_zipIdx_map]
  rfl

theorem blank_input {α : Type} {r : Request} {event : Event α} (member : event ∈ r.input) :
    event.tableau? = none := by
  simp only [input, Event.ofInput, List.cons_append, List.mem_cons, List.mem_append, List.mem_map,
    List.not_mem_nil, or_false] at member
  obtain rfl | ⟨_, -, rfl⟩ | rfl := member <;> rfl

section
variable (α : Type) [Scalar α]

def problem (r : Request) : Except (Fault α) (Problem α) :=
  Problem.ofTexts r.objective r.constraints r.direction

def IsObjective (text : String) : Prop :=
  ∃ terms : List (Term α), readTerms text.toList = .ok terms

def IsConstraint (text : String) : Prop :=
  ∃ c : Constraint α, readConstraint text.toList = .ok c

/-- Every text can be read. -/
structure Readable (r : Request) : Prop where
  objective : IsObjective α r.objective
  constraints : ∀ text ∈ r.constraints, IsConstraint α text

/-- The first text that cannot be read, by its position, and why. -/
inductive Flawed (r : Request) : Option Nat → SyntaxFault → Prop
  | objective {cause : SyntaxFault}
    (flaw : readTerms (α := α) r.objective.toList = .error cause) : Flawed r none cause
  | constraint {before rest : List String} {text : String} {cause : SyntaxFault}
    (objective : IsObjective α r.objective) (split : r.constraints = before ++ text :: rest)
    (first : ∀ earlier ∈ before, IsConstraint α earlier)
    (flaw : readConstraint (α := α) text.toList = .error cause) :
    Flawed r (some (before.length + 1)) cause

end

variable {α : Type} [Scalar α]

theorem forall_isConstraint_cons {text : String} {texts : List String} {c : Constraint α}
    (read : readConstraint text.toList = .ok c) (others : ∀ other ∈ texts, IsConstraint α other) :
    ∀ other ∈ text :: texts, IsConstraint α other := by
  rintro other (_ | ⟨_, member⟩)
  · exact ⟨c, read⟩
  · exact others other member

theorem listOfTexts_cases (position : Nat) (texts : List String) :
    (∃ cs : List (Constraint α), Constraint.listOfTexts position texts = .ok cs ∧
        cs.length = texts.length ∧ ∀ text ∈ texts, IsConstraint α text) ∨
      ∃ before text rest cause, texts = before ++ text :: rest ∧
        (∀ earlier ∈ before, IsConstraint α earlier) ∧
        readConstraint (α := α) text.toList = .error cause ∧
        Constraint.listOfTexts (α := α) position texts =
          .error (.unreadable (some (position + before.length)) cause) := by
  induction texts generalizing position with
  | nil => exact Or.inl ⟨[], rfl, rfl, fun _ member => nomatch member⟩
  | cons text texts ih =>
    cases read : readConstraint (α := α) text.toList with
    | error cause =>
      refine Or.inr ⟨[], text, texts, cause, rfl, (fun _ member => nomatch member), read, ?_⟩
      rw [Constraint.listOfTexts, Constraint.ofText, read]
      rfl
    | ok c =>
      obtain ⟨cs, others, length, readable⟩ |
        ⟨before, bad, rest, cause, split, first, flaw, failed⟩ := ih (position + 1)
      · refine Or.inl ⟨c :: cs, ?_, congrArg Nat.succ length,
          forall_isConstraint_cons read readable⟩
        rw [Constraint.listOfTexts, Constraint.ofText, read, others]
        rfl
      · refine Or.inr ⟨text :: before, bad, rest, cause, ?_, forall_isConstraint_cons read first,
          flaw, ?_⟩
        · rw [split, List.cons_append]
        · rw [Constraint.listOfTexts, Constraint.ofText, read, failed, List.length_cons,
            Nat.add_right_comm, Nat.add_assoc]
          rfl

theorem problem_of_terms {r : Request} {terms : List (Term α)}
    (read : readTerms r.objective.toList = .ok terms) :
    r.problem α = (Constraint.listOfTexts 1 r.constraints).map
      (Problem.mk { terms, direction := r.direction }) := by
  rw [problem, Problem.ofTexts, Objective.ofText, Term.listOfText, read]
  cases Constraint.listOfTexts (α := α) 1 r.constraints <;> rfl

theorem problem_cases (r : Request) :
    (r.Readable α ∧ ∃ p, r.problem α = .ok p ∧ p.constraints.length = r.constraints.length) ∨
      ∃ position cause, r.Flawed α position cause ∧
        r.problem α = .error (.unreadable position cause) := by
  cases read : readTerms (α := α) r.objective.toList with
  | error cause =>
    refine Or.inr ⟨none, cause, .objective read, ?_⟩
    rw [problem, Problem.ofTexts, Objective.ofText, Term.listOfText, read]
    rfl
  | ok terms =>
    obtain ⟨cs, constraints, length, readable⟩ |
      ⟨before, text, rest, cause, split, first, flaw, failed⟩ :=
        listOfTexts_cases (α := α) 1 r.constraints
    · refine Or.inl ⟨⟨⟨terms, read⟩, readable⟩, ⟨⟨terms, r.direction⟩, cs⟩, ?_, length⟩
      rw [problem, Problem.ofTexts, Objective.ofText, Term.listOfText, read, constraints]
      rfl
    · refine Or.inr ⟨_, cause, .constraint ⟨terms, read⟩ split first flaw, ?_⟩
      rw [problem, Problem.ofTexts, Objective.ofText, Term.listOfText, read, failed, Nat.add_comm]
      rfl

end Request

namespace Session

variable {α : Type} [Scalar α]

def answer (s : Session α) (r : Request) : Except (Fault α) (Terminal α) :=
  outcome (run r.objective r.constraints r.direction s)

def after (s : Session α) (r : Request) : Session α :=
  final (run r.objective r.constraints r.direction s)

def afterAll (s : Session α) (requests : List Request) : Session α := requests.foldl after s

/-- What answering a request adds to the trace. -/
def appended (s : Session α) (r : Request) : Trace α := (s.after r).trace.drop s.trace.length

theorem after_spec (s : Session α) (r : Request) :
    (s.after r).trace = s.trace ++ (course s.transition s.maxIterations r.objective r.constraints
        r.direction : Course α _).events ∧
      (s.after r).transition = s.transition ∧ (s.after r).maxIterations = s.maxIterations :=
  (gives_run r.objective r.constraints r.direction _ _ s rfl rfl).2

theorem appended_eq (s : Session α) (r : Request) :
    s.appended r = (course s.transition s.maxIterations r.objective r.constraints r.direction :
      Course α _).events := by
  rw [appended, (s.after_spec r).1, List.drop_left]

theorem trace_after (s : Session α) (r : Request) :
    (s.after r).trace = s.trace ++ s.appended r := by
  rw [appended_eq, (s.after_spec r).1]

theorem answer_eq (s : Session α) (r : Request) :
    s.answer r = (course s.transition s.maxIterations r.objective r.constraints r.direction :
      Course α _).result :=
  (gives_run r.objective r.constraints r.direction _ _ s rfl rfl).1

theorem afterAll_spec (s : Session α) (requests : List Request) :
    (s.afterAll requests).transition = s.transition ∧
      (s.afterAll requests).maxIterations = s.maxIterations := by
  induction requests generalizing s with
  | nil => exact ⟨rfl, rfl⟩
  | cons r rest ih =>
    obtain ⟨transition, limit⟩ := ih (s.after r)
    obtain ⟨-, kept, kept'⟩ := s.after_spec r
    exact ⟨transition.trans kept, limit.trans kept'⟩

section
variable {s : Session α} {r : Request}

theorem after_of_unreadable {fault : Fault α} (failed : r.problem α = .error fault) :
    s.answer r = .error fault ∧ s.appended r = r.input := by
  have same : course s.transition s.maxIterations r.objective r.constraints r.direction =
      { events := r.input, result := .error fault } := by
    rw [course, show Problem.ofTexts _ _ _ = _ from failed, Course.note_bind,
      Course.ofExcept_error_bind]
    exact congrArg (Course.mk · _) (List.append_nil _)
  rw [answer_eq, appended_eq, same]
  exact ⟨rfl, rfl⟩

theorem after_of_read {p : Problem α} (read : r.problem α = .ok p) :
    s.answer r = (p.course s.transition s.maxIterations).result.map (Terminal.mk p) ∧
      s.appended r = r.input ++ (p.course s.transition s.maxIterations).events := by
  rw [answer_eq, appended_eq, course, show Problem.ofTexts _ _ _ = _ from read, Course.note_bind,
    Course.ofExcept_ok_bind]
  cases ended : (p.course s.transition s.maxIterations).result with
  | ok last =>
    rw [Course.bind_of_ok ended]
    exact ⟨rfl, congrArg (r.input ++ ·) (List.append_nil _)⟩
  | error fault =>
    rw [Course.bind_of_error ended]
    exact ⟨rfl, rfl⟩

theorem answer_ok {terminal : Terminal α} (solved : s.answer r = .ok terminal) :
    r.problem α = .ok terminal.problem ∧
      (terminal.problem.course s.transition s.maxIterations).result = .ok terminal.tableau ∧
      s.appended r = r.input ++ (terminal.problem.course s.transition s.maxIterations).events := by
  cases read : r.problem α with
  | error fault =>
    rw [(after_of_unreadable read).1] at solved
    nomatch solved
  | ok p =>
    obtain ⟨answer, appended⟩ := after_of_read (s := s) read
    rw [answer] at solved
    obtain ⟨tableau, ended, rfl⟩ := map_eq_ok_iff.mp solved
    exact ⟨rfl, ended, appended⟩

end

end Session

end Simplex
