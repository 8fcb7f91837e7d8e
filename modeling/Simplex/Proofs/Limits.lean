import Simplex.Proofs.Requests

/-!
# Runs under different limits

The limit decides nothing but where a phase is cut off. A run that does not end at it is the same
under every higher one (`answer_of_more`), and a successful run is cut off by every limit below its
pivots (`answer_of_less`).
-/

namespace Simplex

/-! ### Cuts of a trace -/

namespace Trace

section
variable {α : Type} {phase : Phase}

/-- A trace up to the tableau of a phase that `count` pivots lead to. -/
def cutAfter (phase : Phase) : (count : Nat) → Trace α → Trace α
  | _, [] => []
  | count, event :: rest =>
    if event.tableau?.map Prod.fst = some phase then
      if count = 0 then [event] else event :: cutAfter phase (count - 1) rest
    else event :: cutAfter phase count rest

/-- No tableau of the phase is shown. -/
def Without (phase : Phase) (trace : Trace α) : Prop :=
  ∀ event ∈ trace, event.tableau?.map Prod.fst ≠ some phase

theorem Without.append {first second : Trace α} (h : Without phase first)
    (h' : Without phase second) : Without phase (first ++ second) := by
  intro event member
  exact (List.mem_append.mp member).elim (h event) (h' event)

theorem without_of_blank {trace : Trace α} (blank : ∀ event ∈ trace, event.tableau? = none) :
    Without phase trace := by
  intro event member
  rw [blank event member]
  nofun

theorem without_iterationsFrom {other : Phase} (different : other ≠ phase) (number : Nat)
    (later : List (Tableau α)) : Without phase (iterationsFrom other number later) := by
  induction later generalizing number with
  | nil => exact fun _ member => nomatch member
  | cons t rest ih =>
    rintro _ (_ | ⟨_, member⟩)
    · exact fun same => different (Option.some.inj same)
    · exact ih (number + 1) _ member

theorem without_ofPhase {other : Phase} (different : other ≠ phase) (first : Tableau α)
    (later : List (Tableau α)) : Without phase (ofPhase other first later) := by
  rintro _ (_ | ⟨_, member⟩)
  · exact fun same => different (Option.some.inj same)
  · exact without_iterationsFrom different 1 later _ member

theorem cutAfter_append {first : Trace α} (h : Without phase first) (count : Nat)
    (second : Trace α) :
    cutAfter phase count (first ++ second) = first ++ cutAfter phase count second := by
  induction first with
  | nil => rfl
  | cons event rest ih =>
    rw [List.cons_append, cutAfter, if_neg (h event List.mem_cons_self),
      ih fun other member => h other (List.mem_cons_of_mem event member), List.cons_append]

theorem cutAfter_zero {event : Event α} (h : event.tableau?.map Prod.fst = some phase)
    (rest : Trace α) : cutAfter phase 0 (event :: rest) = [event] := by
  rw [cutAfter, if_pos h, if_pos rfl]

theorem cutAfter_succ {event : Event α} (h : event.tableau?.map Prod.fst = some phase)
    (count : Nat) (rest : Trace α) :
    cutAfter phase (count + 1) (event :: rest) = event :: cutAfter phase count rest := by
  rw [cutAfter, if_pos h, if_neg (Nat.succ_ne_zero count), Nat.add_sub_cancel]

theorem cutAfter_iterationsFrom {later : List (Tableau α)} {count : Nat}
    (less : count < later.length) (number : Nat) (rest : Trace α) :
    cutAfter phase count (iterationsFrom phase number later ++ rest) =
      iterationsFrom phase number (later.take (count + 1)) := by
  induction later generalizing count number with
  | nil => nomatch less
  | cons t later ih =>
    rw [iterationsFrom, List.cons_append, List.take_succ_cons, iterationsFrom]
    cases count with
    | zero => exact cutAfter_zero rfl _
    | succ count => rw [cutAfter_succ rfl, ih (Nat.lt_of_succ_lt_succ less)]

theorem cutAfter_ofPhase (first : Tableau α) {later : List (Tableau α)} {count : Nat}
    (less : count < later.length) (rest : Trace α) :
    cutAfter phase count (ofPhase phase first later ++ rest) =
      ofPhase phase first (later.take count) := by
  rw [ofPhase, List.cons_append, ofPhase]
  cases count with
  | zero => exact cutAfter_zero rfl _
  | succ count => rw [cutAfter_succ rfl, cutAfter_iterationsFrom (Nat.lt_of_succ_lt less)]

theorem iterations_of_without {trace : Trace α} (h : Without phase trace) :
    iterations phase trace = 0 := by
  rw [iterations, List.countP_eq_zero]
  intro event member
  have absent := h event member
  cases event with
  | iteration other number t =>
    have different : other ≠ phase := fun same => absent (congrArg some same)
    cases other <;> cases phase <;> first | exact Bool.false_ne_true | exact absurd rfl different
  | _ => exact Bool.false_ne_true

theorem iterations_ofPhase (phase : Phase) (first : Tableau α) (later : List (Tableau α)) :
    iterations phase (ofPhase phase first later) = later.length := by
  have counted : ∀ number, iterations phase (iterationsFrom phase number later) = later.length := by
    induction later with
    | nil => exact fun _ => rfl
    | cons t rest ih =>
      intro number
      have same : (phase == phase) = true := by cases phase <;> rfl
      have later := ih (number + 1)
      rw [iterations] at later
      rw [iterationsFrom, iterations, List.countP_cons, later, if_pos same, List.length_cons]
  exact counted 1

theorem iterations_append (phase : Phase) (first second : Trace α) :
    iterations phase (first ++ second) = iterations phase first + iterations phase second :=
  List.countP_append

theorem iterations_append_left {first : Trace α} (h : Without phase first) (second : Trace α) :
    iterations phase (first ++ second) = iterations phase second := by
  rw [iterations_append, iterations_of_without h, Nat.zero_add]

theorem iterations_append_right (first : Trace α) {second : Trace α} (h : Without phase second) :
    iterations phase (first ++ second) = iterations phase first := by
  rw [iterations_append, iterations_of_without h, Nat.add_zero]

/-! ### Both phases -/

section
variable (first second : Tableau α) (later later' : List (Tableau α))

theorem without_one_ofPhaseTwo :
    Without .one (.phaseOneComplete :: ofPhase .two second later') := by
  rintro _ (_ | ⟨_, member⟩)
  · nofun
  · exact without_ofPhase (by decide : Phase.two ≠ .one) second later' _ member

theorem without_two_ofPhaseOne :
    Without .two (ofPhase .one first later ++ [.phaseOneComplete]) := by
  refine (without_ofPhase (by decide : Phase.one ≠ .two) first later).append ?_
  rintro _ (_ | ⟨_, member⟩)
  · nofun
  · nomatch member

theorem ofPhases_eq : ofPhases first later second later' =
    (ofPhase .one first later ++ [.phaseOneComplete]) ++ ofPhase .two second later' := by
  rw [ofPhases, List.append_assoc, List.singleton_append]

theorem iterations_one_ofPhases :
    iterations .one (ofPhases first later second later') = later.length := by
  rw [ofPhases, iterations_append_right _ (without_one_ofPhaseTwo second later'),
    iterations_ofPhase]

theorem iterations_two_ofPhases :
    iterations .two (ofPhases first later second later') = later'.length := by
  rw [ofPhases_eq, iterations_append_left (without_two_ofPhaseOne first later),
    iterations_ofPhase]

variable {later later'} {count : Nat}

theorem cutAfter_one_ofPhases (less : count < later.length) :
    cutAfter .one count (ofPhases first later second later') =
      ofPhase .one first (later.take count) := cutAfter_ofPhase first less _

theorem cutAfter_two_ofPhases (less : count < later'.length) :
    cutAfter .two count (ofPhases first later second later') =
      ofPhases first later second (later'.take count) := by
  have cut : cutAfter .two count (ofPhase .two second later' ++ []) = _ :=
    cutAfter_ofPhase second less []
  rw [List.append_nil] at cut
  rw [ofPhases_eq, cutAfter_append (without_two_ofPhaseOne first later), cut, ofPhases_eq]

end

end

end Trace

theorem Request.without_input {α : Type} (r : Request) (phase : Phase) :
    Trace.Without phase (r.input : Trace α) :=
  Trace.without_of_blank fun _ => blank_input

/-! ### Courses under a higher limit -/

namespace Course

variable {α β γ : Type}

/-- A course that does not end at the limit is kept. -/
def Persists (c c' : Course α β) : Prop :=
  (∀ phase limit, c.result ≠ .error (.iterationLimit phase limit)) → c' = c

theorem persists_refl (c : Course α β) : c.Persists c := fun _ => rfl

theorem persists_bind {c c' : Course α β} {f f' : β → Course α γ} (first : c.Persists c')
    (second : ∀ value, (f value).Persists (f' value)) : (c >>= f).Persists (c' >>= f') := by
  intro unlimited
  cases ended : c.result with
  | ok value =>
    have same : c' = c := first (by rw [ended]; nofun)
    rw [bind_of_ok ended] at unlimited
    rw [same, bind_of_ok ended, bind_of_ok ended, second value unlimited]
  | error fault =>
    rw [bind_of_error ended] at unlimited
    have same : c' = c := by
      refine first fun phase limit reached => unlimited phase limit ?_
      rw [ended] at reached
      exact congrArg Except.error (Except.error.inj reached)
    rw [same, bind_of_error ended, bind_of_error ended]

end Course

variable {α : Type} [Scalar α]

theorem Tableau.persists_course (t : Tableau α) (phase : Phase) {limit limit' : Nat}
    (more : limit ≤ limit') : (t.course phase limit).Persists (t.course phase limit') := by
  intro unlimited
  have same : t.descend phase limit' = t.descend phase limit :=
    Descent.run_of_le more unlimited limit'
  rw [course, course, same]

theorem Problem.persists_course (p : Problem α) (transition : Transition) {limit limit' : Nat}
    (more : limit ≤ limit') : (p.course transition limit).Persists (p.course transition limit') :=
  Course.persists_bind (Course.persists_refl _) fun first =>
    Course.persists_bind (first.persists_course .one more) fun _ =>
      Course.persists_bind (Course.persists_refl _) fun _ =>
        Course.persists_bind (Course.persists_refl _) fun second =>
          second.persists_course .two more

/-! ### Courses under a lower limit -/

namespace Tableau

variable {t : Tableau α} {phase : Phase} {limit limit' : Nat}

theorem descend_of_ok {last : Tableau α} (ended : (t.descend phase limit).ending = .ok last)
    (enough : (t.later phase limit).length ≤ limit') :
    t.descend phase limit' = t.descend phase limit := by
  rw [length_later] at enough
  exact Descent.run_of_ok ended enough limit'

theorem descend_of_lt (less : limit' < (t.later phase limit).length) :
    (t.descend phase limit').ending = .error (.iterationLimit phase limit') ∧
      t.later phase limit' = (t.later phase limit).take limit' := by
  rw [length_later] at less
  have cut : t.descend phase limit' = _ := Descent.run_of_lt less limit'
  rw [later, cut]
  exact ⟨rfl, List.map_take⟩

end Tableau

namespace Problem

variable {p : Problem α} {transition : Transition} {limit limit' : Nat} {t : Tableau α}

/-- A limit below the pivots of a success cuts it off in the first phase that has more of them. -/
theorem course_of_low_limit (solved : (p.course transition limit).result = .ok t)
    {events : Trace α} (shown : (p.course transition limit).events = events)
    (low : limit' < max (events.iterations .one) (events.iterations .two)) {phase : Phase}
    (place : phase = if limit' < events.iterations .one then .one else .two) :
    p.course transition limit' =
      { events := events.cutAfter phase limit'
        result := .error (.iterationLimit phase limit') } := by
  obtain ⟨some, last, second, ended, handed, -⟩ := course_ok solved
  have both : events = Trace.ofPhases (p.firstTableau transition)
      ((p.firstTableau transition).later .one limit) second (second.later .two limit) := by
    rw [← shown, course_of_phaseTwo some ended handed, Tableau.events_course,
      Tableau.events_course]
    rfl
  subst both
  rw [Trace.iterations_one_ofPhases, Trace.iterations_two_ofPhases] at low
  rw [Trace.iterations_one_ofPhases] at place
  split at place
  · -- phase 1 is cut off, so that phase 2 never begins
    rename_i less
    obtain ⟨stopped, taken⟩ := Tableau.descend_of_lt less
    rw [place, course_of_phaseOne_fault some stopped, Tableau.events_course, taken,
      Trace.cutAfter_one_ofPhases _ _ less]
  · -- phase 1 takes its pivots as before, and phase 2 is cut off
    rename_i enough
    have same := Tableau.descend_of_ok ended (not_lt.mp enough)
    have less : limit' < (second.later .two limit).length := by omega
    obtain ⟨stopped, taken⟩ := Tableau.descend_of_lt less
    rw [place, course_of_phaseTwo some (by rw [same]; exact ended) handed, Tableau.events_course,
      Tableau.events_course, Tableau.later, same, stopped, taken,
      Trace.cutAfter_two_ofPhases _ _ less]
    rfl

end Problem

/-! ### Answers -/

namespace Session

variable {s s' : Session α}

theorem persists_course (transition : Transition) {limit limit' : Nat} (more : limit ≤ limit')
    (objective : String) (constraints : List String) (direction : Direction) :
    (course (α := α) transition limit objective constraints direction).Persists
      (course transition limit' objective constraints direction) :=
  Course.persists_bind (Course.persists_refl _) fun _ =>
    Course.persists_bind (Course.persists_refl _) fun p =>
      Course.persists_bind (p.persists_course transition more) fun _ => Course.persists_refl _

theorem answer_of_more (same : s'.transition = s.transition)
    (more : s.maxIterations ≤ s'.maxIterations) (r : Request)
    (unlimited : ∀ phase limit, s.answer r ≠ .error (.iterationLimit phase limit)) :
    s'.answer r = s.answer r ∧ s'.appended r = s.appended r := by
  have kept := persists_course (α := α) s.transition more r.objective r.constraints r.direction
  rw [answer_eq] at unlimited
  rw [answer_eq, answer_eq, appended_eq, appended_eq, same, kept unlimited]
  exact ⟨rfl, rfl⟩

theorem answer_of_less (same : s'.transition = s.transition) (r : Request) {terminal : Terminal α}
    (solved : s.answer r = .ok terminal) {phase : Phase}
    (low : s'.maxIterations <
      max ((s.appended r).iterations .one) ((s.appended r).iterations .two))
    (place : phase = if s'.maxIterations < (s.appended r).iterations .one then .one else .two) :
    s'.answer r = .error (.iterationLimit phase s'.maxIterations) ∧
      s'.appended r = (s.appended r).cutAfter phase s'.maxIterations := by
  obtain ⟨read, ended, appended⟩ := answer_ok solved
  rw [appended, Trace.iterations_append_left (r.without_input _)] at low place
  rw [Trace.iterations_append_left (r.without_input _)] at low
  have cut := Problem.course_of_low_limit ended rfl low place
  obtain ⟨answer', appended'⟩ := after_of_read (s := s') read
  rw [answer', appended', same, cut, appended, Trace.cutAfter_append (r.without_input _)]
  exact ⟨rfl, rfl⟩

/-- Under a higher limit a session answers the same, unless the answer was that the limit is
reached; and any limit below the pivots of a success is reached where it says. -/
theorem answer_of_limits (same : s'.transition = s.transition) (r : Request) :
    (s.maxIterations ≤ s'.maxIterations →
      (∀ phase limit, s.answer r ≠ .error (.iterationLimit phase limit)) →
        s'.answer r = s.answer r ∧ s'.appended r = s.appended r) ∧
    ∀ terminal, s.answer r = .ok terminal →
      s'.maxIterations <
        max ((s.appended r).iterations .one) ((s.appended r).iterations .two) →
      let phase := if s'.maxIterations < (s.appended r).iterations .one then .one else .two
      s'.answer r = .error (.iterationLimit phase s'.maxIterations) ∧
        s'.appended r = (s.appended r).cutAfter phase s'.maxIterations :=
  ⟨fun more => answer_of_more same more r, fun _ solved low => answer_of_less same r solved low rfl⟩

/-- A program that takes one pivot in phase 1 and three in phase 2. -/
def fourPivots : Request where
  objective := "3x1+5x2"
  constraints := ["x1<=4", "2x2<=12", "3x1+2x2>=10", "3x1+2x2<=18"]
  direction := .maximize

def carrying (limit : Nat) : Session Rat := { transition := .carryBasis, maxIterations := limit }

theorem answer_of_limits_four :
    ((carrying 9).answer fourPivots = (carrying 5).answer fourPivots ∧
      (carrying 9).appended fourPivots = (carrying 5).appended fourPivots) ∧
    ((carrying 2).answer fourPivots = .error (.iterationLimit .two 2) ∧
      (carrying 2).appended fourPivots = ((carrying 5).appended fourPivots).cutAfter .two 2) ∧
    (carrying 0).answer fourPivots = .error (.iterationLimit .one 0) ∧
      (carrying 0).appended fourPivots = ((carrying 5).appended fourPivots).cutAfter .one 0 := by
  obtain ⟨terminal, solved, -⟩ : Yields ((carrying 5).answer fourPivots) fun _ => True := by
    decide +kernel
  have one : ((carrying 5).appended fourPivots).iterations .one = 1 := by decide +kernel
  have two : ((carrying 5).appended fourPivots).iterations .two = 3 := by decide +kernel
  have low : ∀ limit < 3, (carrying limit).maxIterations <
      max (((carrying 5).appended fourPivots).iterations .one)
        (((carrying 5).appended fourPivots).iterations .two) := by
    intro limit less
    rw [one, two]
    exact less
  have same : ∀ limit limit', (carrying limit).transition = (carrying limit').transition :=
    fun _ _ => rfl
  have more : (carrying 5).maxIterations ≤ (carrying 9).maxIterations := by decide
  refine ⟨(answer_of_limits (same 9 5) fourPivots).1 more (by rw [solved]; nofun), ?_, ?_⟩
  · have cut := (answer_of_limits (same 2 5) fourPivots).2 terminal solved (low 2 (by decide))
    rwa [one] at cut
  · have cut := (answer_of_limits (same 0 5) fourPivots).2 terminal solved (low 0 (by decide))
    rwa [one] at cut

end Session

end Simplex
