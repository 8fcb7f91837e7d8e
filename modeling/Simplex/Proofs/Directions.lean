import Simplex.Proofs.Replay

/-!
# Maximizing and minimizing

An objective that is maximized and its negation that is minimized have the same costs
(`costs_of_mirrored`), and beside the constraints and the costs the direction is read only when the
optimal value is reported. So two such requests are answered through the same tableaux, and their
reports differ in the sign of the optimal value at most (`mirrored_answers`).
-/

namespace Simplex

namespace Direction

def opposite : Direction → Direction
  | .maximize => .minimize
  | .minimize => .maximize

/-- Of values for a direction and its opposite, the one for the minimum is the negation of the one
for the maximum. -/
def Mirrors {α : Type} [Neg α] : Direction → (value other : α) → Prop
  | .maximize, value, other => other = -value
  | .minimize, value, other => value = -other

instance instDecidableMirrors {α : Type} [Neg α] [DecidableEq α] (d : Direction)
    (value other : α) : Decidable (d.Mirrors value other) :=
  match d with
  | .maximize => inferInstanceAs (Decidable (other = -value))
  | .minimize => inferInstanceAs (Decidable (value = -other))

end Direction

section
variable {α : Type} [Scalar α]

/-! ### Programs with the same tableaux -/

namespace Problem

variable {p p' : Problem α}

theorem tableau_congr (constraints : p'.constraints = p.constraints) (names : p'.names = p.names)
    (costs : p'.costs = p.costs) (phase : Phase) : p'.tableau phase = p.tableau phase := by
  have layout : Layout.ofProblem p' = Layout.ofProblem p := by
    rw [Layout.ofProblem, Layout.ofProblem, constraints, names]
  have own : p'.ownColumns = p.ownColumns := by
    rw [ownColumns, ownColumns, layout, constraints]
  rw [tableau, tableau, layout, own, constraints, names, costs]

/-- What both phases do with a program depends on its starting tableaux and its costs. -/
theorem course_congr (tableau : ∀ phase, p'.tableau phase = p.tableau phase)
    (costs : p'.costs = p.costs) (transition : Transition) (limit : Nat) :
    p'.course transition limit = p.course transition limit := by
  have length : p'.constraints.length = p.constraints.length := by
    rw [← constraintCount_tableau p' .one, tableau, constraintCount_tableau]
  have start : ∀ phase, p'.start phase = p.start phase := by
    intro phase
    by_cases some : p.constraints = []
    · have none : p'.constraints = [] := List.eq_nil_of_length_eq_zero (by rw [length, some]; rfl)
      rw [start, start, if_pos (by simp [none]), if_pos (by simp [some])]
    · have other : p'.constraints ≠ [] := by
        intro none
        rw [none] at length
        exact some (List.eq_nil_of_length_eq_zero length.symm)
      rw [start_ok other, start_ok some, tableau]
  have first : p'.phaseOneStart transition = p.phaseOneStart transition := by
    cases transition <;> simp only [phaseOneStart, start]
  have second : ∀ last : Tableau α, p'.startAfter last transition = p.startAfter last transition := by
    intro last
    cases transition with
    | rebuild => exact start .two
    | carryBasis => simp only [startAfter, Tableau.carryBasis, costs]
  simp only [course, first, second]

end Problem

/-! ### Mirrored objectives -/

def Term.Mirrors (d : Direction) (t t' : Term α) : Prop :=
  t.name = t'.name ∧ d.Mirrors t.coefficient t'.coefficient

section
variable {d : Direction} {terms terms' : List (Term α)}

theorem names_of_mirrored (mirrored : List.Forall₂ (Term.Mirrors d) terms terms') :
    terms'.map (·.name) = terms.map (·.name) := by
  induction mirrored with
  | nil => rfl
  | cons same _ ih => rw [List.map_cons, List.map_cons, same.1, ih]

/-- The signs with which the two coefficients count make up for their signs. -/
theorem totalOf_mirrored {weigh weigh' : α → α}
    (weights : ∀ {c c' : α}, d.Mirrors c c' → weigh' c' = weigh c)
    (mirrored : List.Forall₂ (Term.Mirrors d) terms terms') (name : String) :
    totalOf weigh' terms' name = totalOf weigh terms name := by
  rw [totalOf, totalOf]
  generalize (0 : α) = start
  induction mirrored generalizing start with
  | nil => rfl
  | cons same _ ih =>
    rw [List.foldl_cons, List.foldl_cons, same.1, weights same.2]
    exact ih _

end

/-- Requests with the same constraints, whose objectives are each other's negation and to be
optimized in opposite directions. -/
structure Request.Mirrors (α : Type) [Scalar α] (r r' : Request) : Prop where
  opposite : r'.direction = r.direction.opposite
  constraints : r'.constraints = r.constraints
  objectives : ∃ terms terms' : List (Term α), readTerms r.objective.toList = .ok terms ∧
    readTerms r'.objective.toList = .ok terms' ∧
    List.Forall₂ (Term.Mirrors r.direction) terms terms'

/-- Multiplying by one or minus one does to a number what it should. -/
structure KeepsSigns (α : Type) [Scalar α] : Prop where
  neg_one_mul : ∀ c : α, -1 * c = -c
  one_mul : ∀ c : α, 1 * c = c

/-- The programs of two requests whose tableaux are the same. -/
structure Problem.Mirrors (d : Direction) (p p' : Problem α) : Prop where
  constraints : p'.constraints = p.constraints
  names : p'.names = p.names
  costs : p'.costs = p.costs
  direction : p.direction = d
  opposite : p'.direction = d.opposite

theorem costs_of_mirrored (signs : KeepsSigns α) {terms terms' : List (Term α)} {d : Direction}
    (mirrored : List.Forall₂ (Term.Mirrors d) terms terms') (constraints : List (Constraint α)) :
    Problem.Mirrors d { objective := { terms, direction := d }, constraints }
      { objective := { terms := terms', direction := d.opposite }, constraints } where
  constraints := rfl
  names := by
    simp only [Problem.names, Problem.terms, List.map_append, names_of_mirrored mirrored]
  costs := by
    have names : Problem.names { objective := { terms := terms', direction := d.opposite }, constraints } =
        Problem.names { objective := { terms, direction := d }, constraints } := by
      simp only [Problem.names, Problem.terms, List.map_append, names_of_mirrored mirrored]
    rw [Problem.costs, Problem.costs, names]
    apply List.map_congr_left
    intro name _
    refine totalOf_mirrored (fun {c c'} mirror => ?_) mirrored name
    cases d with
    | maximize =>
      obtain rfl : c' = -c := mirror
      exact (signs.one_mul _).trans (signs.neg_one_mul c).symm
    | minimize =>
      obtain rfl : c = -c' := mirror
      exact (signs.neg_one_mul c').trans (signs.one_mul _).symm
  direction := rfl
  opposite := rfl

theorem problems_of_mirrored (signs : KeepsSigns α) {r r' : Request} (h : r.Mirrors α r') :
    (∃ fault, r.problem α = .error fault ∧ r'.problem α = .error fault) ∨
      ∃ p p', r.problem α = .ok p ∧ r'.problem α = .ok p' ∧ p.Mirrors r.direction p' := by
  obtain ⟨terms, terms', read, read', mirrored⟩ := h.objectives
  rw [Request.problem_of_terms read, Request.problem_of_terms read', h.constraints, h.opposite]
  cases Constraint.listOfTexts (α := α) 1 r.constraints with
  | error fault => exact Or.inl ⟨fault, rfl, rfl⟩
  | ok constraints => exact Or.inr ⟨_, _, rfl, rfl, costs_of_mirrored signs mirrored constraints⟩

/-! ### Answers and reports -/

namespace Session

/-- The same fault, or the same tableau for mirrored programs. -/
def MirroredAnswers (d : Direction) (a a' : Except (Fault α) (Terminal α)) : Prop :=
  (∃ fault, a = .error fault ∧ a' = .error fault) ∨
    ∃ p p' t, a = .ok { problem := p, tableau := t } ∧ a' = .ok { problem := p', tableau := t } ∧
      p.Mirrors d p'

theorem mirrored_answers (signs : KeepsSigns α) {r r' : Request} (h : r.Mirrors α r')
    (s : Session α) :
    MirroredAnswers r.direction (s.answer r) (s.answer r') ∧
      ∃ events, s.appended r = r.input ++ events ∧ s.appended r' = r'.input ++ events := by
  obtain ⟨fault, failed, failed'⟩ | ⟨p, p', read, read', mirrors⟩ := problems_of_mirrored signs h
  · obtain ⟨answer, appended⟩ := after_of_unreadable (s := s) failed
    obtain ⟨answer', appended'⟩ := after_of_unreadable (s := s) failed'
    refine ⟨Or.inl ⟨fault, answer, answer'⟩, [], ?_, ?_⟩
    · rw [appended, List.append_nil]
    · rw [appended', List.append_nil]
  · obtain ⟨answer, appended⟩ := after_of_read (s := s) read
    obtain ⟨answer', appended'⟩ := after_of_read (s := s) read'
    have same : p'.course s.transition s.maxIterations = p.course s.transition s.maxIterations :=
      Problem.course_congr (Problem.tableau_congr mirrors.constraints mirrors.names mirrors.costs)
        mirrors.costs _ _
    rw [same] at answer' appended'
    refine ⟨?_, _, appended, appended'⟩
    rw [answer, answer']
    cases (p.course s.transition s.maxIterations).result with
    | error fault => exact Or.inl ⟨fault, rfl, rfl⟩
    | ok t => exact Or.inr ⟨p, p', t, rfl, rfl, mirrors⟩

end Session

/-- Solutions with the same values. The optimal value is read with its sign from the basic solution
and without it from the objective row. -/
structure Solution.Mirrors (d : Direction) (readout : Readout) (x x' : Solution α) : Prop where
  values : x'.values = x.values
  objective : match readout with
    | .basicRhs => d.Mirrors x.objective x'.objective
    | .objectiveRow => x'.objective = x.objective

theorem Problem.Mirrors.solution {d : Direction} {p p' : Problem α} (h : p.Mirrors d p')
    (t : Tableau α) (readout : Readout) :
    (t.solution p readout).Mirrors d readout (t.solution p' readout) := by
  cases readout with
  | objectiveRow => exact ⟨by simp only [Tableau.solution, h.names], rfl⟩
  | basicRhs =>
    refine ⟨by simp only [Tableau.solution, h.names], ?_⟩
    simp only [Tableau.solution, h.direction, h.opposite]
    cases d <;> rfl

/-- Reports of mirrored solutions, with the same tableaux behind the texts of the requests. -/
def Report.Mirrors (readout : Readout) (r r' : Request) (report report' : Report α) : Prop :=
  report.solution.Mirrors r.direction readout report'.solution ∧
    ∃ events, report.trace = r.input ++ events ++ [.finalReport report.solution] ∧
      report'.trace = r'.input ++ events ++ [.finalReport report'.solution]

/-- Maximizing an objective and minimizing its negation give the same tableaux, and then the same
fault or solutions that are the same but for the sign of the optimal value. -/
theorem reports_of_mirrored (signs : KeepsSigns α) {r r' : Request} (h : r.Mirrors α r')
    (s : Session α) (solver : Solver) :
    (Session.MirroredAnswers r.direction (s.answer r) (s.answer r') ∧
      ∃ events, s.appended r = r.input ++ events ∧ s.appended r' = r'.input ++ events) ∧
    ((∃ fault, (solver.solve r.objective r.constraints r.direction : Except (Fault α) _) =
        .error fault ∧ solver.solve r'.objective r'.constraints r'.direction = .error fault) ∨
      ∃ report report' : Report α,
        solver.solve r.objective r.constraints r.direction = .ok report ∧
          solver.solve r'.objective r'.constraints r'.direction = .ok report' ∧
          report.Mirrors solver.readout r r' report') := by
  refine ⟨s.mirrored_answers signs h, ?_⟩
  rw [solver.solve_eq, solver.solve_eq]
  obtain ⟨⟨fault, answer, answer'⟩ | ⟨p, p', t, answer, answer', mirrors⟩, events, appended,
    appended'⟩ := (solver.session : Session α).mirrored_answers signs h
  · rw [answer, answer']
    exact Or.inl ⟨fault, rfl, rfl⟩
  · rw [answer, answer']
    refine Or.inr ⟨_, _, rfl, rfl, mirrors.solution t solver.readout, events, ?_, ?_⟩
    · rw [Solver.reportOf, Session.trace_after, appended]
      rfl
    · rw [Solver.reportOf, Session.trace_after, appended']
      rfl

end

theorem keepsSigns_rat : KeepsSigns Rat where
  neg_one_mul := neg_one_mul
  one_mul := one_mul

def dearest : Request where
  objective := "3x1-5x2"
  constraints := ["x1<=4", "x2>=1", "3x1+2x2<=18"]
  direction := .maximize

def cheapest : Request where
  objective := "-3x1+5x2"
  constraints := ["x1<=4", "x2>=1", "3x1+2x2<=18"]
  direction := .minimize

theorem reports_of_mirrored_dearest :
    dearest.Mirrors Rat cheapest ∧ ∃ report report' : Report Rat,
      Solver.solve {} dearest.objective dearest.constraints .maximize = .ok report ∧
        Solver.solve {} cheapest.objective cheapest.constraints .minimize = .ok report' ∧
        report.Mirrors .basicRhs dearest cheapest report' := by
  have mirrors : dearest.Mirrors Rat cheapest := by
    refine ⟨rfl, rfl, [⟨3, "x1"⟩, ⟨-5, "x2"⟩], [⟨-3, "x1"⟩, ⟨5, "x2"⟩], by decide +kernel,
      by decide +kernel, ?_⟩
    exact .cons ⟨rfl, by decide +kernel⟩ (.cons ⟨rfl, by decide +kernel⟩ .nil)
  obtain ⟨-, ⟨fault, failed, -⟩ | solved⟩ := reports_of_mirrored keepsSigns_rat mirrors
    ({ transition := .carryBasis, maxIterations := 100 } : Session Rat) {}
  · have succeeds : Yields (Solver.solve (α := Rat) {} dearest.objective dearest.constraints
        dearest.direction) fun report => report.solution.objective = 7 := by decide +kernel
    obtain ⟨report, solved, -⟩ := succeeds
    rw [solved] at failed
    nomatch failed
  · exact ⟨mirrors, solved⟩

end Simplex
