import Simplex.Proofs.Access
import Simplex.Proofs.Directions

/-!
# Renamed variables

A variable is its column: a program reads a name only to compare it with other names. So programs
that differ in the names of their variables, different ones for different variables, have the same
tableaux and costs (`tableau_rename`, `costs_rename`), and their solutions have the same values
under the new names (`reports_of_renamed`).
-/

namespace Simplex

section
variable {α : Type} (f : String → String)

def Term.rename (t : Term α) : Term α := { t with name := f t.name }

def Constraint.rename (c : Constraint α) : Constraint α :=
  { c with terms := c.terms.map (Term.rename f) }

def Objective.rename (o : Objective α) : Objective α :=
  { o with terms := o.terms.map (Term.rename f) }

def Problem.rename (p : Problem α) : Problem α where
  objective := p.objective.rename f
  constraints := p.constraints.map (Constraint.rename f)

def Terminal.rename (t : Terminal α) : Terminal α := { t with problem := t.problem.rename f }

def Solution.rename (x : Solution α) : Solution α :=
  { x with values := x.values.map fun (name, v) => (f name, v) }

end

section
variable {α : Type} {f : String → String} {p : Problem α}

/-- No two variables of the program get the same name. -/
def Problem.Distinguishes (p : Problem α) (f : String → String) : Prop :=
  ∀ name ∈ p.names, ∀ other ∈ p.names, f name = f other → name = other

instance instDecidableDistinguishes (p : Problem α) (f : String → String) :
    Decidable (p.Distinguishes f) :=
  inferInstanceAs (Decidable (∀ name ∈ p.names, ∀ other ∈ p.names, _ → _))

/-! ### Names and columns -/

theorem firstAppearances_map {names : List String}
    (apart : ∀ name ∈ names, ∀ other ∈ names, f name = f other → name = other) :
    firstAppearances (names.map f) = (firstAppearances names).map f := by
  induction names with
  | nil => rfl
  | cons first rest ih =>
    have later := ih fun name member other member' =>
      apart name (List.mem_cons_of_mem first member) other (List.mem_cons_of_mem first member')
    rw [List.map_cons, firstAppearances, firstAppearances, List.map_cons, later, List.filter_map]
    congr 2
    apply List.filter_congr
    intro name member
    have different : f name ≠ f first ↔ name ≠ first := by
      refine not_congr ⟨fun same => ?_, congrArg f⟩
      exact apart name (List.mem_cons_of_mem first (mem_firstAppearances.mp member)) first
        List.mem_cons_self same
    exact decide_eq_decide.mpr different

namespace Problem

theorem terms_rename (p : Problem α) (f : String → String) :
    (p.rename f).terms = p.terms.map (Term.rename f) := by
  simp [terms, rename, Objective.rename, Constraint.rename, List.flatMap_map, List.map_flatMap]

theorem names_rename (apart : p.Distinguishes f) : (p.rename f).names = p.names.map f := by
  have names : (p.rename f).terms.map (·.name) = (p.terms.map (·.name)).map f := by
    rw [terms_rename, List.map_map, List.map_map]
    rfl
  rw [Problem.names, names]
  apply firstAppearances_map
  intro name member other member'
  exact apart name (mem_firstAppearances.mpr member) other (mem_firstAppearances.mpr member')

theorem relations_rename (p : Problem α) (f : String → String) :
    (p.rename f).constraints.map (·.relation) = p.constraints.map (·.relation) :=
  List.map_map

theorem layout_rename (apart : p.Distinguishes f) :
    Layout.ofProblem (p.rename f) = Layout.ofProblem p := by
  have count : ∀ q : Relation → Bool, (p.rename f).constraints.countP (fun c => q c.relation) =
      p.constraints.countP fun c => q c.relation := fun _ => List.countP_map
  rw [Layout.ofProblem, names_rename apart, List.length_map, count (· == .atMost),
    count (· == .atLeast), count (· != .atMost)]
  rfl

variable [Scalar α]

/-- The terms of a variable are those of its new name. -/
theorem totalOf_rename {terms : List (Term α)} (covered : ∀ t ∈ terms, t.name ∈ p.names)
    (apart : p.Distinguishes f) {name : String} (named : name ∈ p.names) (weigh : α → α) :
    totalOf weigh (terms.map (Term.rename f)) (f name) = totalOf weigh terms name := by
  rw [totalOf, totalOf, List.foldl_map]
  apply List.foldl_ext
  intro sum t member
  have same : f t.name = f name ↔ t.name = name :=
    ⟨apart t.name (covered t member) name named, congrArg f⟩
  exact if_congr same rfl rfl

theorem costs_rename (apart : p.Distinguishes f) : (p.rename f).costs = p.costs := by
  rw [costs, costs, names_rename apart, List.map_map]
  apply List.map_congr_left
  intro name named
  exact totalOf_rename (fun _ => p.mem_names_of_objective) apart named _

theorem ownColumns_rename (apart : p.Distinguishes f) :
    (p.rename f).ownColumns = p.ownColumns := by
  rw [ownColumns, ownColumns, layout_rename apart, relations_rename]

theorem tableau_rename (apart : p.Distinguishes f) (phase : Phase) :
    (p.rename f).tableau phase = p.tableau phase := by
  have rows : (p.rename f).constraints.zip p.ownColumns.1 =
      (p.constraints.zip p.ownColumns.1).map (Prod.map (Constraint.rename f) id) :=
    List.zip_map_left
  have count : (p.rename f).constraints.length = p.constraints.length := List.length_map _
  rw [tableau, tableau, layout_rename apart, ownColumns_rename apart, names_rename apart,
    costs_rename apart, rows, count]
  apply Tableau.ofFn_congr
  intro i _ j _
  rw [List.getElem?_map, List.getElem?_map]
  cases found : (p.constraints.zip p.ownColumns.1)[i]? with
  | none => rfl
  | some row =>
    have member : row.1 ∈ p.constraints := (List.of_mem_zip (List.mem_of_getElem? found)).1
    cases named : p.names[j]? with
    | none => rfl
    | some name =>
      have same : (row.1.rename f).coefficientOf (f name) = row.1.coefficientOf name :=
        totalOf_rename (fun _ => p.mem_names_of_constraint member) apart
          (List.mem_of_getElem? named) id
      simp only [Option.map_some, Prod.map, same]
      rfl

theorem course_rename (apart : p.Distinguishes f) (transition : Transition) (limit : Nat) :
    (p.rename f).course transition limit = p.course transition limit :=
  course_congr (tableau_rename apart) (costs_rename apart) transition limit

theorem solution_rename (apart : p.Distinguishes f) (t : Tableau α) (readout : Readout) :
    t.solution (p.rename f) readout = (t.solution p readout).rename f := by
  have values : ∀ value : Nat → α,
      (p.rename f).names.zipIdx.map (fun place => (place.1, value place.2)) =
        (p.names.zipIdx.map fun place => (place.1, value place.2)).map (Prod.map f id) := by
    intro value
    rw [names_rename apart, List.zipIdx_map, List.map_map, List.map_map]
    rfl
  cases readout with
  | objectiveRow => exact congrArg (Solution.mk _) (values _)
  | basicRhs => exact congrArg (Solution.mk _) (values _)

end Problem

end

/-! ### Answers and reports -/

section
variable {α : Type} [Scalar α] {f : String → String} {p : Problem α} {r r' : Request}

theorem Session.answer_rename (read : r.problem α = .ok p)
    (read' : r'.problem α = .ok (p.rename f)) (apart : p.Distinguishes f) (s : Session α) :
    s.answer r' = (s.answer r).map (Terminal.rename f) ∧
      ∃ events, s.appended r = r.input ++ events ∧ s.appended r' = r'.input ++ events := by
  obtain ⟨answer, appended⟩ := after_of_read (s := s) read
  obtain ⟨answer', appended'⟩ := after_of_read (s := s) read'
  rw [Problem.course_rename apart] at answer' appended'
  refine ⟨?_, _, appended, appended'⟩
  rw [answer, answer']
  cases (p.course s.transition s.maxIterations).result <;> rfl

/-- Reports of the same values under the new names, with the same tableaux behind the texts of the
requests. -/
def Report.Renames (f : String → String) (r r' : Request) (report report' : Report α) : Prop :=
  report'.solution = report.solution.rename f ∧
    ∃ events, report.trace = r.input ++ events ++ [.finalReport report.solution] ∧
      report'.trace = r'.input ++ events ++ [.finalReport report'.solution]

/-- Programs that differ in the names of their variables have the same tableaux, and then the same
fault or solutions that differ in these names. -/
theorem reports_of_renamed (read : r.problem α = .ok p)
    (read' : r'.problem α = .ok (p.rename f)) (apart : p.Distinguishes f) (s : Session α)
    (solver : Solver) :
    (s.answer r' = (s.answer r).map (Terminal.rename f) ∧
      ∃ events, s.appended r = r.input ++ events ∧ s.appended r' = r'.input ++ events) ∧
    ((∃ fault, (solver.solve r.objective r.constraints r.direction : Except (Fault α) _) =
        .error fault ∧ solver.solve r'.objective r'.constraints r'.direction = .error fault) ∨
      ∃ report report' : Report α,
        solver.solve r.objective r.constraints r.direction = .ok report ∧
          solver.solve r'.objective r'.constraints r'.direction = .ok report' ∧
          report.Renames f r r' report') := by
  refine ⟨s.answer_rename read read' apart, ?_⟩
  obtain ⟨renamed, events, appended, appended'⟩ :=
    (solver.session : Session α).answer_rename read read' apart
  rw [solver.solve_eq, solver.solve_eq, renamed]
  cases answer : (solver.session : Session α).answer r with
  | error fault => exact Or.inl ⟨fault, rfl, rfl⟩
  | ok terminal =>
    have same : terminal.problem = p :=
      Except.ok.inj ((Session.answer_ok answer).1.symm.trans read)
    refine Or.inr ⟨_, _, rfl, rfl, ?_, events, ?_, ?_⟩
    · have apart' : terminal.problem.Distinguishes f := same ▸ apart
      exact Problem.solution_rename apart' terminal.tableau solver.readout
    · rw [Solver.reportOf, Session.trace_after, appended]
      rfl
    · rw [Solver.reportOf, Session.trace_after, appended']
      rfl

end

/-- A variable in one constraint only, and one that stands twice in another. -/
def labelled : Request where
  objective := "3x1+2x2"
  constraints := ["x1+x2-2x1<=4", "x2+x3=6", "x1>=1", "x1<=3"]
  direction := .maximize

/-- The first two variables change their names. -/
def relabelled : Request where
  objective := "3x2+2x1"
  constraints := ["x2+x1-2x2<=4", "x1+y=6", "x2>=1", "x2<=3"]
  direction := .maximize

def exchange (name : String) : String :=
  if name = "x1" then "x2" else if name = "x2" then "x1" else "y"

theorem reports_of_renamed_exchange :
    ∃ p : Problem Rat, labelled.problem Rat = .ok p ∧
      relabelled.problem Rat = .ok (p.rename exchange) ∧
      p.Distinguishes exchange ∧ ∃ report report' : Report Rat,
        Solver.solve {} labelled.objective labelled.constraints .maximize = .ok report ∧
          Solver.solve {} relabelled.objective relabelled.constraints .maximize = .ok report' ∧
          report.Renames exchange labelled relabelled report' ∧
          report.solution = { objective := 21, values := [("x1", 3), ("x2", 6), ("x3", 0)] } ∧
          report'.solution = { objective := 21, values := [("x2", 3), ("x1", 6), ("y", 0)] } := by
  obtain ⟨p, read, read', apart⟩ : Yields (labelled.problem Rat) fun p =>
      relabelled.problem Rat = .ok (p.rename exchange) ∧ p.Distinguishes exchange := by
    decide +kernel
  obtain ⟨report, solved, values⟩ : Yields (Solver.solve (α := Rat) {} labelled.objective
      labelled.constraints .maximize) fun report => report.solution =
        { objective := 21, values := [("x1", 3), ("x2", 6), ("x3", 0)] } := by
    decide +kernel
  refine ⟨p, read, read', apart, report, ?_⟩
  obtain ⟨-, ⟨fault, failed, -⟩ | ⟨report₁, report', solved₁, solved', renames⟩⟩ :=
    reports_of_renamed read read' apart
      ({ transition := .carryBasis, maxIterations := 100 } : Session Rat) {}
  · cases solved.symm.trans failed
  · obtain rfl : report₁ = report := Except.ok.inj (solved₁.symm.trans solved)
    refine ⟨report', solved, solved', renames, values, ?_⟩
    rw [renames.1, values]
    decide

end Simplex
