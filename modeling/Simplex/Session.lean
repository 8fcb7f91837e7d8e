import Simplex.Problem.Reader
import Simplex.Report.Trace
import Simplex.Report.Log

/-!
# Sessions

A session takes linear programs through both phases, one after the other, and keeps a trace and a
log of them all. `Session.run` solves one program; a fault ends it in the stage `failed`, and the
next run starts anew.
-/

namespace Simplex

/-- How phase 2 begins. -/
inductive Transition where
  /-- With a starting tableau of its own. Phase 1 then runs on an objective row that is not priced
  out, and nothing of it is kept. -/
  | rebuild
  /-- With the basis that phase 1 ended with. -/
  | carryBasis
  deriving Repr, BEq, DecidableEq

structure Session (α : Type) where
  transition : Transition
  maxIterations : Nat
  stage : Stage := .parsingInput
  trace : Trace α := []
  log : List (Record α) := []

structure Terminal (α : Type) where
  problem : Problem α
  tableau : Tableau α

/-- Steps of a session. A fault keeps what the session has noted before it. -/
abbrev SessionM (α β : Type) := EStateM (Fault α) (Session α) β

namespace Session

def push (events : List (Event α)) : SessionM α Unit :=
  modify fun s => { s with trace := s.trace ++ events }

def tell (records : List (Record α)) : SessionM α Unit :=
  modify fun s => { s with log := s.log ++ records }

def enter (stage : Stage) : SessionM α Unit :=
  modify fun s => { s with stage, log := s.log ++ [.moved s.stage stage] }

def ofExcept : Except (Fault α) β → SessionM α β
  | .ok value => pure value
  | .error fault => throw fault

def fail (fault : Fault α) : SessionM α β := do
  tell [.solveFailed fault]
  enter .failed
  throw fault

/-! ### What each step does to a session -/

@[simp] theorem push_apply (events : List (Event α)) (s : Session α) :
    push events s = .ok () { s with trace := s.trace ++ events } := rfl

@[simp] theorem tell_apply (records : List (Record α)) (s : Session α) :
    tell records s = .ok () { s with log := s.log ++ records } := rfl

@[simp] theorem enter_apply (stage : Stage) (s : Session α) :
    enter stage s = .ok () { s with stage, log := s.log ++ [.moved s.stage stage] } := rfl

@[simp] theorem get_apply (s : Session α) : (get : SessionM α (Session α)) s = .ok s s := rfl

@[simp] theorem pure_apply (value : β) (s : Session α) :
    (pure value : SessionM α β) s = .ok value s := rfl

@[simp] theorem ofExcept_ok_apply (value : β) (s : Session α) :
    ofExcept (.ok value) s = .ok value s := rfl

@[simp] theorem ofExcept_error_apply (fault : Fault α) (s : Session α) :
    (ofExcept (.error fault) : SessionM α β) s = .error fault s := rfl

theorem fail_apply (fault : Fault α) (s : Session α) :
    (fail fault : SessionM α β) s = .error fault { s with
      stage := .failed
      log := s.log ++ [.solveFailed fault] ++ [.moved s.stage .failed] } := rfl

variable [Scalar α]

def build (p : Problem α) (phase : Phase) : SessionM α (Tableau α) := do
  let t ← ofExcept (p.start phase)
  tell [.building phase t.layout, .built phase t]
  return t

/-- The tableau that phase 1 begins with. -/
def startPhaseOne (p : Problem α) : SessionM α (Tableau α) := do
  let t ← build p .one
  match (← get).transition with
  | .rebuild => return t
  | .carryBasis => ofExcept t.priceStart

/-- The tableau that phase 2 begins with, if phase 1 ended in `t`. -/
def startPhaseTwo (p : Problem α) (t : Tableau α) : SessionM α (Tableau α) := do
  match (← get).transition with
  | .rebuild => build p .two
  | .carryBasis =>
    let h := t.carryBasis p
    tell h.records
    ofExcept h.outcome

/-- The optimal tableau of a phase that begins with `t`. -/
def iterate (phase : Phase) (t : Tableau α) : SessionM α (Tableau α) := do
  push [.initial phase t]
  enter (.iterating phase)
  let d := t.descend phase (← get).maxIterations
  tell (d.records phase t)
  push (d.events phase)
  let optimum ← ofExcept d.ending
  tell [.optimal phase d.steps.length]
  return optimum

theorem iterate_apply (phase : Phase) (t : Tableau α) (s : Session α) :
    iterate phase t s =
      let d := t.descend phase s.maxIterations
      let trace := s.trace ++ .initial phase t :: d.events phase
      let log := s.log ++ .moved s.stage (.iterating phase) :: d.records phase t
      match d.ending with
      | .error fault => .error fault { s with stage := .iterating phase, trace, log }
      | .ok optimum => .ok optimum { s with
          stage := .iterating phase
          trace
          log := log ++ [.optimal phase d.steps.length] } := by
  simp only [iterate, bind, EStateM.bind, push_apply, enter_apply, tell_apply, get_apply,
    pure_apply]
  cases (t.descend phase s.maxIterations).ending <;> simp [List.append_assoc]

/-- Solves one program, without a note of a fault. -/
def runPhases (objective : String) (constraints : List String) (direction : Direction) :
    SessionM α (Terminal α) := do
  enter .parsingInput
  push (Event.ofInput objective constraints direction)
  let problem ← ofExcept (Problem.ofTexts objective constraints direction)
  tell [.parsed problem.names problem.constraints.length, .phaseBegins .one]
  enter (.building .one)
  let last ← iterate .one (← startPhaseOne problem)
  push [.phaseOneComplete]
  tell [.phaseBegins .two]
  enter (.building .two)
  let tableau ← iterate .two (← startPhaseTwo problem last)
  enter .done
  return { problem, tableau }

def run (objective : String) (constraints : List String) (direction : Direction) :
    SessionM α (Terminal α) := fun s =>
  match runPhases objective constraints direction s with
  | .ok terminal s => .ok terminal s
  | .error fault s => fail fault s

end Session

end Simplex
