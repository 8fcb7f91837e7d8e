import Simplex.Proofs.Limits

/-!
# What log and trace say of a phase

The log tells the moves between stages, and each pivot with the progress that it makes; the trace
records the tableaux after the pivots of each phase. `Recounts` says that what the log tells of a
phase is what the trace records of it. Pieces of log and trace that agree can be put together if
they are about different phases (`Agrees.append`).
-/

namespace Simplex

/-! ### What a trace records -/

section
variable {α : Type} {phase : Phase}

namespace Trace

/-- The tableaux after the pivots of a phase, each with its number. -/
def recorded (phase : Phase) (trace : Trace α) : List (Nat × Tableau α) :=
  trace.filterMap fun
    | .iteration p number t => if p = phase then some (number, t) else none
    | _ => none

theorem recorded_append (phase : Phase) (first second : Trace α) :
    (first ++ second).recorded phase = first.recorded phase ++ second.recorded phase :=
  List.filterMap_append

theorem recorded_of_without {trace : Trace α} (h : Without phase trace) :
    trace.recorded phase = [] := by
  apply List.filterMap_eq_nil_iff.mpr
  intro event member
  have absent := h event member
  cases event with
  | iteration p number t => exact if_neg fun same => absent (congrArg some same)
  | _ => rfl

theorem initialTableau?_append (phase : Phase) (first second : Trace α) :
    (first ++ second).initialTableau? phase =
      (first.initialTableau? phase).or (second.initialTableau? phase) :=
  List.findSome?_append

theorem initialTableau?_of_without {trace : Trace α} (h : Without phase trace) :
    trace.initialTableau? phase = none := by
  apply List.findSome?_eq_none_iff.mpr
  intro event member
  have absent := h event member
  cases event with
  | initial p t => exact if_neg fun same => absent (congrArg some same)
  | _ => rfl

end Trace

namespace Descent

/-- The tableaux after the pivots of a descent, each with its number. -/
def snapshots (d : Descent α) : List (Nat × Tableau α) :=
  d.steps.zipIdx.map fun (step, i) => (i + 1, step.result)

theorem recorded_events (phase : Phase) (d : Descent α) :
    Trace.recorded phase (d.events phase) = d.snapshots := by
  rw [events, Trace.recorded, List.filterMap_map, snapshots, ← List.filterMap_eq_map]
  apply List.filterMap_congr
  intro numbered _
  exact if_pos rfl

end Descent

end

/-! ### What a log tells -/

/-- A chain of moves between stages, each from where the one before it leads. -/
def Leads (source : Stage) : List (Stage × Stage) → Stage → Prop
  | [], target => source = target
  | (left, entered) :: rest, target => left = source ∧ Leads entered rest target

theorem Leads.append {source between target : Stage} {first second : List (Stage × Stage)}
    (h : Leads source first between) (h' : Leads between second target) :
    Leads source (first ++ second) target := by
  induction first generalizing source with
  | nil =>
    obtain rfl : source = between := h
    exact h'
  | cons move rest ih => exact ⟨h.1, ih h.2⟩

def Stage.iterates (phase : Phase) : Stage → Bool
  | .iterating p => p == phase
  | _ => false

def Stage.rests : Stage → Bool
  | .iterating _ => false
  | _ => true

namespace Record

section
variable {α : Type}

/-- The stages of a move. -/
def move? : Record α → Option (Stage × Stage)
  | moved source target => some (source, target)
  | _ => none

def moves (log : List (Record α)) : List (Stage × Stage) := log.filterMap move?

/-- A record of a pivot or of the progress that it makes. -/
def isStep : Record α → Bool
  | pivot _ _ | progress _ _ => true
  | _ => false

/-- A record of neither a move nor a step. -/
def isRemark (record : Record α) : Bool := record.move?.isNone && !record.isStep

/-- The pivots and the progress that a log tells in certain stages, if it begins in `current`. -/
def stepsWhile (stages : Stage → Bool) (current : Stage) : List (Record α) → List (Record α)
  | [] => []
  | record :: rest =>
    match record.move? with
    | some (_, entered) => stepsWhile stages entered rest
    | none =>
      if stages current && record.isStep then record :: stepsWhile stages current rest
      else stepsWhile stages current rest

theorem moves_append (first second : List (Record α)) :
    moves (first ++ second) = moves first ++ moves second :=
  List.filterMap_append

theorem moves_moved (source target : Stage) (rest : List (Record α)) :
    moves (.moved source target :: rest) = (source, target) :: moves rest := rfl

theorem moves_eq_nil {log : List (Record α)} (still : ∀ record ∈ log, record.move? = none) :
    moves log = [] :=
  List.filterMap_eq_nil_iff.mpr still

theorem of_remarks {log : List (Record α)} (remarks : log.all isRemark = true) :
    (∀ record ∈ log, record.move? = none) ∧ ∀ record ∈ log, record.isStep = false := by
  have both : ∀ record ∈ log, record.move? = none ∧ record.isStep = false := by
    simpa [isRemark] using remarks
  exact ⟨fun record member => (both record member).1, fun record member => (both record member).2⟩

theorem stepsWhile_append (stages : Stage → Bool) (current : Stage)
    (first second : List (Record α)) :
    ∃ between, stepsWhile stages current (first ++ second) =
      stepsWhile stages current first ++ stepsWhile stages between second := by
  induction first generalizing current with
  | nil => exact ⟨current, rfl⟩
  | cons record rest ih =>
    cases move : record.move? with
    | some stagesOf =>
      obtain ⟨between, same⟩ := ih stagesOf.2
      refine ⟨between, ?_⟩
      simp only [List.cons_append, stepsWhile, move, same]
    | none =>
      obtain ⟨between, same⟩ := ih current
      refine ⟨between, ?_⟩
      simp only [List.cons_append, stepsWhile, move, same]
      split <;> rfl

variable {stages : Stage → Bool}

theorem stepsWhile_of_silent {log : List (Record α)}
    (silent : ∀ record ∈ log, record.isStep = false) (current : Stage) :
    stepsWhile stages current log = [] := by
  induction log generalizing current with
  | nil => rfl
  | cons record rest ih =>
    have later := ih fun other member => silent other (List.mem_cons_of_mem record member)
    rw [stepsWhile, silent record List.mem_cons_self]
    split
    · exact later _
    · rw [Bool.and_false]
      exact later current

/-- A log without moves stays in its stage. -/
theorem stepsWhile_of_still {log : List (Record α)} (still : ∀ record ∈ log, record.move? = none)
    (current : Stage) :
    stepsWhile stages current log = if stages current then log.filter isStep else [] := by
  induction log with
  | nil => exact (ite_self _).symm
  | cons record rest ih =>
    rw [stepsWhile, still record List.mem_cons_self, List.filter_cons,
      ih fun other member => still other (List.mem_cons_of_mem record member)]
    cases stages current <;> cases record.isStep <;> rfl

end

end Record

/-! ### How they fit together -/

section
variable {α : Type} [Scalar α] {phase : Phase}

/-- Pivots, each with its progress, that lead from `before` through the recorded tableaux: the
progress has the number and the objective value of the tableau that the pivot gives. -/
inductive Tells : (before : Tableau α) → List (Record α) → List (Nat × Tableau α) → Prop
  | nothing (before : Tableau α) : Tells before [] []
  | step {before : Tableau α} (row column number : Nat) {records : List (Record α)}
    {recorded : List (Nat × Tableau α)} (later : Tells (before.pivot row column) records recorded) :
    Tells before
      (.pivot row column :: .progress number (before.pivot row column).objectiveValue :: records)
      ((number, before.pivot row column) :: recorded)

/-- The records tell what the trace shows of a phase behind its first tableau, and nothing if it
shows none. -/
def Recounts (phase : Phase) (records : List (Record α)) (trace : Trace α) : Prop :=
  match trace.initialTableau? phase with
  | some first => Tells first records (trace.recorded phase)
  | none => records = [] ∧ trace.recorded phase = []

theorem recounts_of_without {trace : Trace α} (h : Trace.Without phase trace) :
    Recounts phase [] trace := by
  rw [Recounts, Trace.initialTableau?_of_without h]
  exact ⟨rfl, Trace.recorded_of_without h⟩

theorem recounts_append_iff_left {records : List (Record α)} {first second : Trace α}
    (h : Trace.Without phase second) :
    Recounts phase records (first ++ second) ↔ Recounts phase records first := by
  rw [Recounts, Recounts, Trace.initialTableau?_append, Trace.initialTableau?_of_without h,
    Trace.recorded_append, Trace.recorded_of_without h, Option.or_none, List.append_nil]

theorem recounts_append_iff_right {records : List (Record α)} {first second : Trace α}
    (h : Trace.Without phase first) :
    Recounts phase records (first ++ second) ↔ Recounts phase records second := by
  rw [Recounts, Recounts, Trace.initialTableau?_append, Trace.initialTableau?_of_without h,
    Trace.recorded_append, Trace.recorded_of_without h, Option.none_or, List.nil_append]

/-- A piece of log and the piece of trace that is written with it. Each of the phases is accounted
for, of the others there is nothing in either, and no step is told outside of a phase. -/
structure Agrees (phases : List Phase) (records : List (Record α)) (events : Trace α) : Prop where
  told : ∀ phase ∈ phases, ∀ current,
    Recounts phase (Record.stepsWhile (Stage.iterates phase) current records) events
  untold : ∀ phase ∉ phases, ∀ current,
    Record.stepsWhile (Stage.iterates phase) current records = []
  unseen : ∀ phase ∉ phases, Trace.Without phase events
  within : ∀ current, Record.stepsWhile Stage.rests current records = []

namespace Agrees

variable {phases others : List Phase} {records more : List (Record α)} {events later : Trace α}

theorem of_silent (silent : ∀ record ∈ records, record.isStep = false)
    (blank : ∀ event ∈ events, event.tableau? = none) : Agrees [] records events where
  told := nofun
  untold _ _ := Record.stepsWhile_of_silent silent
  unseen _ _ := Trace.without_of_blank blank
  within := Record.stepsWhile_of_silent silent

theorem mono (h : Agrees phases records events) (subset : ∀ phase ∈ phases, phase ∈ others) :
    Agrees others records events where
  told phase member current := by
    by_cases own : phase ∈ phases
    · exact h.told phase own current
    · rw [h.untold phase own]
      exact recounts_of_without (h.unseen phase own)
  untold phase absent := h.untold phase fun own => absent (subset phase own)
  unseen phase absent := h.unseen phase fun own => absent (subset phase own)
  within := h.within

theorem append (h : Agrees phases records events) (h' : Agrees others more later)
    (apart : ∀ phase ∈ phases, phase ∉ others) :
    Agrees (phases ++ others) (records ++ more) (events ++ later) where
  told phase member current := by
    obtain ⟨between, split⟩ :=
      Record.stepsWhile_append (Stage.iterates phase) current records more
    rw [split]
    by_cases own : phase ∈ phases
    · rw [h'.untold phase (apart phase own), List.append_nil,
        recounts_append_iff_left (h'.unseen phase (apart phase own))]
      exact h.told phase own current
    · rw [h.untold phase own, List.nil_append, recounts_append_iff_right (h.unseen phase own)]
      exact h'.told phase ((List.mem_append.mp member).resolve_left own) between
  untold phase absent current := by
    obtain ⟨none, none'⟩ := not_or.mp (mt List.mem_append.mpr absent)
    obtain ⟨between, split⟩ :=
      Record.stepsWhile_append (Stage.iterates phase) current records more
    rw [split, h.untold phase none, h'.untold phase none', List.append_nil]
  unseen phase absent := by
    obtain ⟨none, none'⟩ := not_or.mp (mt List.mem_append.mpr absent)
    exact (h.unseen phase none).append (h'.unseen phase none')
  within current := by
    obtain ⟨between, split⟩ := Record.stepsWhile_append Stage.rests current records more
    rw [split, h.within, h'.within, List.append_nil]

end Agrees

end

end Simplex
