import Simplex.Proofs.ImprovingColumns
import Simplex.Proofs.Narration

/-!
# Runs that rebuild

Phase 2 of a session that rebuilds has a starting tableau of its own, and phase 1 comes to nothing.
Its objective row is not priced out, so that every reduced cost is zero or one. That is optimal
before any pivot, whatever the constraints are (`isOptimal_tableau_one`). So the descent of phase 2
is all of the run (`course_of_rebuild`, `answer_of_rebuild`), and nothing in it asks whether the
program is feasible.
-/

namespace Simplex

section
variable {α : Type}

/-- The phase that a fault blames. -/
def Fault.phase? : Fault α → Option Phase
  | iterationLimit phase _ | noImprovingColumn phase | noPivotRow phase _ => some phase
  | _ => none

variable [Scalar α]

namespace Tableau

theorem phase?_of_descend {t : Tableau α} {phase : Phase} {limit : Nat} {fault : Fault α}
    (h : (t.descend phase limit).ending = .error fault) : fault.phase? = some phase := by
  have ends := t.descend_ends phase limit
  rw [h] at ends
  cases ends with
  | limit unfinished => rfl
  | stuck unfinished stuck => cases stuck <;> rfl

theorem recorded_course (t : Tableau α) (phase : Phase) (limit : Nat) :
    Trace.recorded phase (t.course phase limit).events = (t.descend phase limit).snapshots :=
  Descent.recorded_events phase _

theorem without_course {phase other : Phase} (different : other ≠ phase) (t : Tableau α)
    (limit : Nat) : Trace.Without phase (t.course other limit).events := by
  rw [events_course]
  exact Trace.without_ofPhase different t _

end Tableau

namespace Problem

variable {p : Problem α}

/-- The costs of phase 1 are zeros and ones, and a tolerance that is not negative accepts both. -/
theorem isOptimal_tableau_one (p : Problem α) (zero : -Scalar.tolerance ≤ (0 : α))
    (one : -Scalar.tolerance ≤ (1 : α)) : (p.tableau .one).isOptimal = true := by
  rw [Tableau.isOptimal_iff]
  intro j hj
  have cost : (p.tableau .one).reducedCost j =
      if (Layout.ofProblem p).isArtificial j then 1 else 0 := by
    rw [Tableau.reducedCost, Tableau.objectiveRow_eq, constraintCount_tableau]
    exact p.objective_tableau .one (Nat.lt_succ_of_lt hj)
  rw [cost]
  split
  · exact one
  · exact zero

theorem course_of_rebuild (nonempty : p.constraints ≠ [])
    (optimal : (p.tableau .one).isOptimal = true) (limit : Nat) :
    p.course .rebuild limit =
      { events := [.initial .one (p.tableau .one), .phaseOneComplete] ++
          ((p.tableau .two).course .two limit).events
        result := ((p.tableau .two).descend .two limit).ending } := by
  have stops : (p.firstTableau .rebuild).descend .one limit = .stopped (.ok (p.tableau .one)) :=
    Descent.run_of_optimal optimal .one limit limit
  have ended : ((p.firstTableau .rebuild).descend .one limit).ending = .ok (p.tableau .one) :=
    congrArg Descent.ending stops
  have shown : ((p.firstTableau .rebuild).course .one limit).events =
      [.initial .one (p.tableau .one)] := by
    rw [Tableau.course, stops]
    rfl
  rw [course_of_phaseTwo nonempty ended (start_ok nonempty .two), shown]
  rfl

end Problem

end

namespace Session

/-- A session that rebuilds answers with the descent of phase 2 from the starting tableau, within
any limit. It shows the steps of this descent and none of phase 1. All that can fail is phase 2, so
that no program is found infeasible. -/
theorem answer_of_rebuild {s : Session Float} {r : Request} {p : Problem Float}
    (rebuilds : s.transition = .rebuild) (read : r.problem Float = .ok p)
    (nonempty : p.constraints ≠ []) :
    ∃ second, p.start .two = .ok second ∧
      let d := second.descend .two s.maxIterations
      s.answer r = d.ending.map (Terminal.mk p) ∧
      (s.appended r).recorded .one = [] ∧ (s.appended r).recorded .two = d.snapshots ∧
      (∀ fault, s.answer r = .error fault → fault.phase? = some .two) ∧
      ∀ sum, s.answer r ≠ .error (.infeasible sum) := by
  have optimal : (p.tableau .one).isOptimal = true :=
    p.isOptimal_tableau_one (by decide) (by decide)
  obtain ⟨answer, appended⟩ := after_of_read (s := s) read
  rw [rebuilds, Problem.course_of_rebuild nonempty optimal] at answer appended
  have blamed : ∀ fault, s.answer r = .error fault → fault.phase? = some .two := by
    intro fault failed
    rw [answer, map_eq_error_iff] at failed
    exact Tableau.phase?_of_descend failed
  refine ⟨p.tableau .two, Problem.start_ok nonempty .two, answer, ?_, ?_, blamed, ?_⟩
  · rw [appended, Trace.recorded_append, Trace.recorded_of_without (r.without_input .one),
      Trace.recorded_append, Trace.recorded_of_without
        (Tableau.without_course (by decide : Phase.two ≠ .one) _ s.maxIterations)]
    rfl
  · rw [appended, Trace.recorded_append, Trace.recorded_of_without (r.without_input .two),
      Trace.recorded_append, Tableau.recorded_course]
    rfl
  · intro sum failed
    nomatch blamed (.infeasible sum) failed

/-- No assignment satisfies both of the constraints. -/
def contradictory : Request where
  objective := "x"
  constraints := ["x>=2", "x<=1"]
  direction := .minimize

def rebuilding (limit : Nat) : Session Float := { transition := .rebuild, maxIterations := limit }

/-- Without a single pivot, the program is solved by its starting tableau. -/
theorem answer_of_rebuild_contradictory : ∃ p : Problem Float,
    contradictory.problem Float = .ok p ∧
      (rebuilding 0).answer contradictory =
        ((p.tableau .two).descend .two 0).ending.map (Terminal.mk p) ∧
      ((rebuilding 0).answer contradictory).map (fun terminal => terminal.tableau.objectiveValue) =
        .ok 0 := by
  have solved : ((rebuilding 0).answer contradictory).map
      (fun terminal => terminal.tableau.objectiveValue) = .ok 0 := by decide +kernel
  obtain ⟨p, read, nonempty⟩ :
      Yields (contradictory.problem Float) fun p => p.constraints ≠ [] := by decide +kernel
  obtain ⟨second, started, answer, -⟩ := answer_of_rebuild (s := rebuilding 0) rfl read nonempty
  obtain rfl : second = p.tableau .two := Problem.start_eq started
  exact ⟨p, read, answer, solved⟩

end Session

end Simplex
