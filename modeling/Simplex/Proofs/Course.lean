import Simplex.Proofs.Handover
import Simplex.Proofs.Outcome
import Simplex.Proofs.StandardForm

/-!
# How far a run comes

A program with a constraint always has its phase 1 start, and whether phase 2 begins depends on the
tableau that phase 1 ends in alone (`startAfter_cases`). So both phases take one of four courses
(`runs_course`), and a run takes one of them behind the texts of its input.
-/

namespace Simplex

/-- The tableau that an event shows, with its phase. -/
def Event.tableau? {α : Type} : Event α → Option (Phase × Tableau α)
  | initial phase t | iteration phase _ t => some (phase, t)
  | _ => none

namespace Trace

/-- The tableaux after the pivots of a phase, numbered on from `number`. -/
def iterationsFrom {α : Type} (phase : Phase) (number : Nat) : List (Tableau α) → Trace α
  | [] => []
  | t :: rest => .iteration phase number t :: iterationsFrom phase (number + 1) rest

/-- What is shown of a phase: the tableau it begins with, and the later ones numbered from 1. -/
def ofPhase {α : Type} (phase : Phase) (first : Tableau α) (later : List (Tableau α)) : Trace α :=
  .initial phase first :: iterationsFrom phase 1 later

/-- What is shown of both phases. -/
def ofPhases {α : Type} (first : Tableau α) (later : List (Tableau α)) (second : Tableau α)
    (later' : List (Tableau α)) : Trace α :=
  ofPhase .one first later ++ .phaseOneComplete :: ofPhase .two second later'

end Trace

theorem Descent.events_eq {α : Type} (phase : Phase) (d : Descent α) :
    d.events phase = Trace.iterationsFrom phase 1 (d.steps.map (·.result)) := by
  have onward : ∀ number, (d.steps.zipIdx number).map
      (fun numbered => Event.iteration phase (numbered.2 + 1) numbered.1.result) =
        Trace.iterationsFrom phase (number + 1) (d.steps.map (·.result)) := by
    induction d.steps with
    | nil => exact fun _ => rfl
    | cons step rest ih => exact fun number => congrArg (_ :: ·) (ih (number + 1))
  exact onward 0

namespace Tableau

variable {α : Type} [Scalar α]

/-- The tableaux of a phase that begins with `t`, in order and without `t`. -/
def later (t : Tableau α) (phase : Phase) (limit : Nat) : List (Tableau α) :=
  (t.descend phase limit).steps.map (·.result)

theorem length_later (t : Tableau α) (phase : Phase) (limit : Nat) :
    (t.later phase limit).length = (t.descend phase limit).steps.length := List.length_map _

theorem events_course (t : Tableau α) (phase : Phase) (limit : Nat) :
    (t.course phase limit).events = Trace.ofPhase phase t (t.later phase limit) := by
  rw [course, Descent.events_eq, Trace.ofPhase, later]

theorem startingBasis_fits (t : Tableau α) :
    t.startingBasis.length ≤ t.constraintCount ∧
      ∀ column ∈ t.startingBasis.reduceOption, column < t.layout.columns := by
  refine ⟨by simp [startingBasis], fun column member => ?_⟩
  obtain ⟨_, basic, rfl⟩ := List.mem_filterMap.mp member
  obtain ⟨i, -, found⟩ := List.mem_map.mp basic
  have place := List.mem_of_find?_eq_some found
  simp only [List.mem_append, List.mem_range'_1, Layout.columns, Layout.rhs,
    Layout.artificialStart, Layout.surplusStart] at place ⊢
  omega

theorem priceStart_ok (t : Tableau α) : t.priceStart = .ok (t.priceOut t.startingBasis) :=
  if_pos t.startingBasis_fits

end Tableau

namespace Problem

/-- The columns of phase 2. -/
def secondLayout {α : Type} (p : Problem α) : Transition → Layout
  | .rebuild => Layout.ofProblem p
  | .carryBasis => (Layout.ofProblem p).withoutArtificial

theorem length_names_le {α : Type} (p : Problem α) (transition : Transition) :
    p.names.length ≤ (p.secondLayout transition).columns := by
  have decisions : p.names.length = (Layout.ofProblem p).decision := rfl
  have before := (Layout.ofProblem p).decision_le_artificialStart
  have whole := (Layout.ofProblem p).artificialStart_le_rhs
  cases transition with
  | rebuild => simp only [secondLayout, Layout.columns]; omega
  | carryBasis =>
    simp only [secondLayout, Layout.columns, Layout.rhs_withoutArtificial]
    omega

variable {α : Type} [Scalar α]

/-- The tableau that phase 1 begins with. -/
def firstTableau (p : Problem α) : Transition → Tableau α
  | .rebuild => p.tableau .one
  | .carryBasis => (p.tableau .one).priceOut (p.tableau .one).startingBasis

theorem phaseOneStart_ok {p : Problem α} (some : p.constraints ≠ []) (transition : Transition) :
    p.phaseOneStart transition = .ok (p.firstTableau transition) := by
  cases transition with
  | rebuild => exact start_ok some .one
  | carryBasis =>
    rw [phaseOneStart, start_ok some]
    exact Tableau.priceStart_ok _

theorem phaseOneStart_error {p : Problem α} (empty : p.constraints = [])
    (transition : Transition) : p.phaseOneStart transition = .error .noConstraints := by
  cases transition with
  | rebuild => exact start_error empty .one
  | carryBasis =>
    rw [phaseOneStart, start_error empty]
    rfl

@[simp] theorem layout_firstTableau (p : Problem α) (transition : Transition) :
    (p.firstTableau transition).layout = Layout.ofProblem p := by
  cases transition with
  | rebuild => rfl
  | carryBasis => exact Tableau.layout_priceFrom ..

/-- Phase 2 begins, unless phase 1 leaves an artificial sum that the handover does not accept. -/
theorem startAfter_cases {p : Problem α} (some : p.constraints ≠ []) (transition : Transition)
    {last : Tableau α} (layout : last.layout = Layout.ofProblem p) :
    (∃ second, p.startAfter last transition = .ok second ∧
        second.layout = p.secondLayout transition) ∨
      transition = .carryBasis ∧ Scalar.tolerance < -last.objectiveValue ∧
        p.startAfter last transition = .error (.infeasible (-last.objectiveValue)) := by
  cases transition with
  | rebuild => exact Or.inl ⟨p.tableau .two, start_ok some .two, rfl⟩
  | carryBasis =>
    have fits : p.costs.length ≤ last.layout.artificialStart := by
      rw [layout]
      exact p.costs_fit
    obtain ⟨remaining, failed⟩ | ⟨-, carried, given, handed⟩ := Tableau.carryBasis_cases fits
    · exact Or.inr ⟨rfl, remaining, failed⟩
    · obtain ⟨carried', given', same, -⟩ := last.handedOver_ok
      obtain rfl : carried = carried' := Except.ok.inj (given.symm.trans given')
      refine Or.inl ⟨_, handed, ?_⟩
      rw [Tableau.layout_recosted, same, layout]
      rfl

theorem layout_startAfter {p : Problem α} {transition : Transition} {last second : Tableau α}
    (some : p.constraints ≠ []) (layout : last.layout = Layout.ofProblem p)
    (handed : p.startAfter last transition = .ok second) :
    second.layout = p.secondLayout transition := by
  obtain ⟨second', handed', same⟩ | ⟨-, -, refused⟩ := startAfter_cases some transition layout
  · obtain rfl : second = second' := Except.ok.inj (handed.symm.trans handed')
    exact same
  · rw [refused] at handed
    nomatch handed

theorem layout_of_phaseOne {p : Problem α} {transition : Transition} {limit : Nat}
    {last : Tableau α}
    (ended : ((p.firstTableau transition).descend .one limit).ending = .ok last) :
    last.layout = Layout.ofProblem p := by
  rw [(Tableau.optimal_of_descend ended).1, Tableau.layout_reached, layout_firstTableau]

/-! ### The four courses -/

section
variable {p : Problem α} {transition : Transition} {limit : Nat} {last second : Tableau α}

theorem course_of_unconstrained (empty : p.constraints = []) :
    p.course transition limit = .ofExcept (.error .noConstraints) := by
  rw [course, phaseOneStart_error empty]
  rfl

variable (some : p.constraints ≠ [])
include some

theorem course_of_phaseOne_fault {fault : Fault α}
    (ended : ((p.firstTableau transition).descend .one limit).ending = .error fault) :
    p.course transition limit =
      { events := ((p.firstTableau transition).course .one limit).events
        result := .error fault } := by
  rw [course, phaseOneStart_ok some, Course.ofExcept_ok_bind, Course.bind_of_error ended]

theorem course_of_phaseOne
    (ended : ((p.firstTableau transition).descend .one limit).ending = .ok last) :
    p.course transition limit =
      { events := ((p.firstTableau transition).course .one limit).events ++ .phaseOneComplete ::
          (Course.ofExcept (p.startAfter last transition) >>= (·.course .two limit)).events
        result := (Course.ofExcept (p.startAfter last transition) >>=
          (·.course .two limit)).result } := by
  rw [course, phaseOneStart_ok some, Course.ofExcept_ok_bind, Course.bind_of_ok ended,
    Course.note_bind]
  rfl

theorem course_of_remainder {fault : Fault α}
    (ended : ((p.firstTableau transition).descend .one limit).ending = .ok last)
    (refused : p.startAfter last transition = .error fault) :
    p.course transition limit =
      { events := ((p.firstTableau transition).course .one limit).events ++ [.phaseOneComplete]
        result := .error fault } := by
  rw [course_of_phaseOne some ended, refused]
  rfl

theorem course_of_phaseTwo
    (ended : ((p.firstTableau transition).descend .one limit).ending = .ok last)
    (handed : p.startAfter last transition = .ok second) :
    p.course transition limit =
      { events := ((p.firstTableau transition).course .one limit).events ++ .phaseOneComplete ::
          (second.course .two limit).events
        result := (second.descend .two limit).ending } := by
  rw [course_of_phaseOne some ended, handed]
  rfl

end

/-- How far the two phases come. -/
inductive Runs (p : Problem α) (transition : Transition) (limit : Nat) :
    Course α (Tableau α) → Prop
  | unconstrained (empty : p.constraints = []) :
    Runs p transition limit (.ofExcept (.error .noConstraints))
  | phaseOne {fault : Fault α} (some : p.constraints ≠ [])
    (ended : ((p.firstTableau transition).descend .one limit).ending = .error fault) :
    Runs p transition limit
      { events := ((p.firstTableau transition).course .one limit).events, result := .error fault }
  | infeasible {last : Tableau α} (some : p.constraints ≠ [])
    (ended : ((p.firstTableau transition).descend .one limit).ending = .ok last)
    (carried : transition = .carryBasis) (remaining : Scalar.tolerance < -last.objectiveValue) :
    Runs p transition limit
      { events := ((p.firstTableau transition).course .one limit).events ++ [.phaseOneComplete]
        result := .error (.infeasible (-last.objectiveValue)) }
  | phaseTwo {last second : Tableau α} (some : p.constraints ≠ [])
    (ended : ((p.firstTableau transition).descend .one limit).ending = .ok last)
    (handed : p.startAfter last transition = .ok second) :
    Runs p transition limit
      { events := ((p.firstTableau transition).course .one limit).events ++ .phaseOneComplete ::
          (second.course .two limit).events
        result := (second.descend .two limit).ending }

theorem runs_course (p : Problem α) (transition : Transition) (limit : Nat) :
    p.Runs transition limit (p.course transition limit) := by
  by_cases empty : p.constraints = []
  · rw [course_of_unconstrained empty]
    exact .unconstrained empty
  · cases ended : ((p.firstTableau transition).descend .one limit).ending with
    | error fault =>
      rw [course_of_phaseOne_fault empty ended]
      exact .phaseOne empty ended
    | ok last =>
      obtain ⟨second, handed, -⟩ | ⟨carried, remaining, refused⟩ :=
        startAfter_cases empty transition (layout_of_phaseOne ended)
      · rw [course_of_phaseTwo empty ended handed]
        exact .phaseTwo empty ended handed
      · rw [course_of_remainder empty ended refused]
        exact .infeasible empty ended carried remaining

theorem course_ok {p : Problem α} {transition : Transition} {limit : Nat} {t : Tableau α}
    (solved : (p.course transition limit).result = .ok t) :
    p.constraints ≠ [] ∧ ∃ last second,
      ((p.firstTableau transition).descend .one limit).ending = .ok last ∧
        p.startAfter last transition = .ok second ∧ (second.descend .two limit).ending = .ok t := by
  have runs := p.runs_course transition limit
  generalize p.course transition limit = c at runs solved
  cases runs with
  | unconstrained | phaseOne | infeasible => nomatch solved
  | @phaseTwo last second some ended handed => exact ⟨some, last, second, ended, handed, solved⟩

end Problem

end Simplex
