import Simplex.Proofs.Choice
import Simplex.Tableau.Descent

/-!
# The steps of a descent

Each step pivots on the column and the row that the tableau before it chooses, and a descent ends
at an optimal tableau, at its limit, or where no pivot can be chosen (`run_spec`). What every step
preserves holds of the tableau that a descent ends in (`reached_of_along`). Of two descents from one
tableau, the one with the lower limit is the other or a cut of it (`run_of_le`, `run_of_ok`,
`run_of_lt`).
-/

namespace Simplex

namespace Tableau

def reached {α : Type} (t : Tableau α) : List (Step α) → Tableau α
  | [] => t
  | step :: rest => step.result.reached rest

theorem reached_eq {α : Type} (t : Tableau α) (steps : List (Step α)) :
    t.reached steps = (steps.map (·.result)).getLastD t := by
  induction steps generalizing t with
  | nil => rfl
  | cons step rest ih => rw [reached, ih, List.map_cons, List.getLastD_cons]

/-- `P` holds of each of the steps from `t` and the tableau before it. -/
def Along {α : Type} (P : Tableau α → Step α → Prop) (t : Tableau α) : List (Step α) → Prop
  | [] => True
  | step :: rest => P t step ∧ Along P step.result rest

instance instDecidableAlong {α : Type} (P : Tableau α → Step α → Prop)
    [∀ t step, Decidable (P t step)] (t : Tableau α) (steps : List (Step α)) :
    Decidable (t.Along P steps) :=
  match steps with
  | [] => isTrue trivial
  | step :: rest =>
    have := instDecidableAlong P step.result rest
    inferInstanceAs (Decidable (P t step ∧ step.result.Along P rest))

/-- What the steps preserve holds of the tableau that they lead to. -/
theorem reached_of_along {α : Type} {P : Tableau α → Step α → Prop} {Q : Tableau α → Prop}
    (kept : ∀ t step, P t step → Q t → Q step.result) {t : Tableau α} {steps : List (Step α)}
    (along : t.Along P steps) (h : Q t) : Q (t.reached steps) := by
  induction steps generalizing t with
  | nil => exact h
  | cons step rest ih => exact ih along.2 (kept t step along.1 h)

/-- What the steps preserve holds of every tableau on their way. -/
theorem forall_of_along {α : Type} {P : Tableau α → Step α → Prop} {Q : Tableau α → Prop}
    (kept : ∀ t step, P t step → Q t → Q step.result) {t : Tableau α} {steps : List (Step α)}
    (along : t.Along P steps) (h : Q t) : ∀ step ∈ steps, Q step.result := by
  induction steps generalizing t with
  | nil => exact fun _ member => nomatch member
  | cons step rest ih =>
    have next := kept t step along.1 h
    exact List.forall_mem_cons.mpr ⟨next, ih along.2 next⟩

theorem Along.imp {α : Type} {P Q : Tableau α → Step α → Prop} {t : Tableau α}
    {steps : List (Step α)} (h : t.Along P steps) (implies : ∀ t step, P t step → Q t step) :
    t.Along Q steps := by
  induction steps generalizing t with
  | nil => trivial
  | cons step rest ih => exact ⟨implies t step h.1, ih h.2⟩

theorem Along.and {α : Type} {P Q : Tableau α → Step α → Prop} {t : Tableau α}
    {steps : List (Step α)} (first : t.Along P steps) (second : t.Along Q steps) :
    t.Along (fun t step => P t step ∧ Q t step) steps := by
  induction steps generalizing t with
  | nil => trivial
  | cons step rest ih => exact ⟨⟨first.1, second.1⟩, ih first.2 second.2⟩

section
variable {α : Type} [Scalar α]

/-- A step on the pivot that a tableau chooses, if it is not optimal. -/
structure Chosen (t : Tableau α) (step : Step α) : Prop where
  unfinished : t.isOptimal = false
  entering : t.enteringColumn = some step.column
  leaving : t.leavingRow step.column = some step.row
  result_eq : step.result = t.pivot step.row step.column

theorem Chosen.row_lt {t : Tableau α} {step : Step α} (h : t.Chosen step) :
    step.row < t.constraintCount := (positive_of_leavingRow h.leaving).1

theorem Chosen.column_lt {t : Tableau α} {step : Step α} (h : t.Chosen step) :
    step.column < t.layout.rhs := lt_of_enteringColumn h.entering

/-- Why a tableau that is not optimal chooses no pivot. -/
inductive Stuck (phase : Phase) (t : Tableau α) : Fault α → Prop
  | noColumn (entering : t.enteringColumn = none) : Stuck phase t (.noImprovingColumn phase)
  | noRow (column : Nat) (entering : t.enteringColumn = some column)
    (leaving : t.leavingRow column = none) : Stuck phase t (.noPivotRow phase column)

inductive Ends (phase : Phase) (limit : Nat) (t : Tableau α) :
    Except (Fault α) (Tableau α) → Prop
  | optimal (finished : t.isOptimal = true) : Ends phase limit t (.ok t)
  | limit (unfinished : t.isOptimal = false) :
    Ends phase limit t (.error (.iterationLimit phase limit))
  | stuck {fault : Fault α} (unfinished : t.isOptimal = false) (stuck : t.Stuck phase fault) :
    Ends phase limit t (.error fault)

end

end Tableau

namespace Descent

variable {α : Type} [Scalar α]

theorem checked_leavingRow {t : Tableau α} {column : Nat} (h : t.enteringColumn = some column) :
    Tableau.Checked.leavingRow t column = .ok (t.leavingRow column) :=
  if_pos (Or.inr (Nat.lt_succ_of_lt (Tableau.lt_of_enteringColumn h)))

theorem checked_pivot {t : Tableau α} {row column : Nat} (hr : row < t.constraintCount)
    (hc : column < t.layout.rhs) :
    Tableau.Checked.pivot t row column = .ok (t.pivot row column) := by
  have inside : t.InRange row column := by
    refine ⟨?_, Nat.lt_succ_of_lt hc⟩
    rw [t.length_rows]
    omega
  exact if_pos inside

theorem run_of_optimal {t : Tableau α} (finished : t.isOptimal = true) (phase : Phase)
    (limit remaining : Nat) : run phase limit remaining t = stopped (.ok t) := by
  unfold run
  rw [if_pos finished]

theorem run_zero {t : Tableau α} (unfinished : t.isOptimal = false) (phase : Phase)
    (limit : Nat) : run phase limit 0 t = stopped (.error (.iterationLimit phase limit)) := by
  unfold run
  rw [if_neg (by simp [unfinished])]

/-- What a tableau that is not optimal does with a step left does not depend on the limit. -/
theorem run_succ_cases {t : Tableau α} (unfinished : t.isOptimal = false) (phase : Phase) :
    (∃ fault, t.Stuck phase fault ∧
      ∀ limit remaining, run phase limit (remaining + 1) t = stopped (.error fault)) ∨
    ∃ step, t.Chosen step ∧ ∀ limit remaining,
      run phase limit (remaining + 1) t = after step (run phase limit remaining step.result) := by
  have opened : ¬ t.isOptimal = true := by simp [unfinished]
  cases entering : t.enteringColumn with
  | none =>
    refine Or.inl ⟨_, .noColumn entering, fun limit remaining => ?_⟩
    rw [run, if_neg opened, entering]
  | some column =>
    have checked := checked_leavingRow entering
    cases leaving : t.leavingRow column with
    | none =>
      refine Or.inl ⟨_, .noRow column entering leaving, fun limit remaining => ?_⟩
      simp only [run, if_neg opened, entering, checked, leaving]
    | some row =>
      have pivoted := checked_pivot (Tableau.positive_of_leavingRow leaving).1
        (Tableau.lt_of_enteringColumn entering)
      refine Or.inr ⟨⟨row, column, t.pivot row column⟩, ⟨unfinished, entering, leaving, rfl⟩,
        fun limit remaining => ?_⟩
      simp only [run, if_neg opened, entering, checked, leaving, pivoted]

/-- Induction on the steps left, by what the tableau does with them. The equations hold for every
limit, so that two descents from one tableau can be followed side by side. -/
theorem run_induction (phase : Phase) {motive : Nat → Tableau α → Prop}
    (optimal : ∀ remaining t,
      (∀ limit remaining, run phase limit remaining t = stopped (.ok t)) →
      t.isOptimal = true → motive remaining t)
    (out : ∀ t, (∀ limit, run phase limit 0 t = stopped (.error (.iterationLimit phase limit))) →
      t.isOptimal = false → motive 0 t)
    (stuck : ∀ remaining t fault,
      (∀ limit remaining, run phase limit (remaining + 1) t = stopped (.error fault)) →
      t.isOptimal = false → t.Stuck phase fault → motive (remaining + 1) t)
    (onward : ∀ remaining t step,
      (∀ limit remaining,
        run phase limit (remaining + 1) t = after step (run phase limit remaining step.result)) →
      t.Chosen step → motive remaining step.result → motive (remaining + 1) t)
    (remaining : Nat) (t : Tableau α) : motive remaining t := by
  induction remaining generalizing t with
  | zero =>
    cases status : t.isOptimal with
    | true => exact optimal 0 t (run_of_optimal status phase) status
    | false => exact out t (run_zero status phase) status
  | succ remaining ih =>
    cases status : t.isOptimal with
    | true => exact optimal _ t (run_of_optimal status phase) status
    | false =>
      obtain ⟨fault, stopped, runs⟩ | ⟨step, chosen, runs⟩ := run_succ_cases status phase
      · exact stuck remaining t fault runs status stopped
      · exact onward remaining t step runs chosen (ih step.result)

theorem run_spec (phase : Phase) (limit remaining : Nat) (t : Tableau α) :
    t.Along Tableau.Chosen (run phase limit remaining t).steps ∧
      (t.reached (run phase limit remaining t).steps).Ends phase limit
        (run phase limit remaining t).ending := by
  induction remaining, t using @run_induction α _ phase with
  | optimal remaining t runs finished =>
    rw [runs]
    exact ⟨trivial, .optimal finished⟩
  | out t runs unfinished =>
    rw [runs]
    exact ⟨trivial, .limit unfinished⟩
  | stuck remaining t fault runs unfinished stuck =>
    rw [runs]
    exact ⟨trivial, .stuck unfinished stuck⟩
  | onward remaining t step runs chosen ih =>
    rw [runs]
    exact ⟨⟨chosen, ih.1⟩, ih.2⟩

/-! ### The limit -/

theorem length_run_le (phase : Phase) (limit remaining : Nat) (t : Tableau α) :
    (run phase limit remaining t).steps.length ≤ remaining := by
  induction remaining, t using @run_induction α _ phase with
  | optimal remaining t runs | out t runs | stuck remaining t fault runs =>
    rw [runs]
    exact Nat.zero_le _
  | onward remaining t step runs chosen ih =>
    rw [runs]
    exact Nat.succ_le_succ ih

theorem length_run_of_limit {phase phase' : Phase} {limit limit' remaining : Nat} {t : Tableau α}
    (h : (run phase limit remaining t).ending = .error (.iterationLimit phase' limit')) :
    (run phase limit remaining t).steps.length = remaining := by
  induction remaining, t using @run_induction α _ phase with
  | optimal remaining t runs =>
    rw [runs] at h
    nomatch h
  | out t runs =>
    rw [runs]
    rfl
  | stuck remaining t fault runs unfinished stuck =>
    rw [runs] at h
    obtain rfl : fault = _ := Except.error.inj h
    nomatch stuck
  | onward remaining t step runs chosen ih =>
    rw [runs] at h ⊢
    exact congrArg Nat.succ (ih h)

/-- Steps to spare change nothing. -/
theorem run_of_le {phase : Phase} {limit remaining remaining' : Nat} {t : Tableau α}
    (more : remaining ≤ remaining')
    (h : ∀ phase' limit', (run phase limit remaining t).ending ≠
      .error (.iterationLimit phase' limit')) (limit' : Nat) :
    run phase limit' remaining' t = run phase limit remaining t := by
  induction remaining, t using @run_induction α _ phase generalizing remaining' with
  | optimal remaining t runs => rw [runs, runs]
  | out t runs =>
    rw [runs] at h
    exact absurd rfl (h phase limit)
  | stuck remaining t fault runs =>
    obtain ⟨spare, rfl⟩ := Nat.exists_eq_add_of_lt more
    rw [runs, runs]
  | onward remaining t step runs chosen ih =>
    obtain ⟨spare, rfl⟩ := Nat.exists_eq_add_of_lt more
    rw [runs] at h
    rw [runs, runs, ih (Nat.le_add_right _ _) h]

/-- A descent to an optimal tableau needs no more than its steps. -/
theorem run_of_ok {phase : Phase} {limit remaining remaining' : Nat} {t last : Tableau α}
    (h : (run phase limit remaining t).ending = .ok last)
    (enough : (run phase limit remaining t).steps.length ≤ remaining') (limit' : Nat) :
    run phase limit' remaining' t = run phase limit remaining t := by
  induction remaining, t using @run_induction α _ phase generalizing remaining' with
  | optimal remaining t runs => rw [runs, runs]
  | out t runs | stuck remaining t fault runs =>
    rw [runs] at h
    nomatch h
  | onward remaining t step runs chosen ih =>
    rw [runs] at h enough
    obtain ⟨spare, rfl⟩ := Nat.exists_eq_add_of_lt enough
    rw [runs, runs, ih h (Nat.le_add_right _ _)]

/-- A limit that is too low cuts the descent off after as many steps. -/
theorem run_of_lt {phase : Phase} {limit remaining remaining' : Nat} {t : Tableau α}
    (less : remaining' < (run phase limit remaining t).steps.length) (limit' : Nat) :
    run phase limit' remaining' t =
      { steps := (run phase limit remaining t).steps.take remaining'
        ending := .error (.iterationLimit phase limit') } := by
  induction remaining, t using @run_induction α _ phase generalizing remaining' with
  | optimal remaining t runs | out t runs | stuck remaining t fault runs =>
    rw [runs] at less
    nomatch less
  | onward remaining t step runs chosen ih =>
    rw [runs] at less ⊢
    cases remaining' with
    | zero => exact run_zero chosen.unfinished phase limit'
    | succ remaining' =>
      rw [runs, ih (Nat.lt_of_succ_lt_succ less)]
      rfl

end Descent

namespace Tableau

variable {α : Type} [Scalar α]

theorem descend_along (t : Tableau α) (phase : Phase) (limit : Nat) :
    t.Along Chosen (t.descend phase limit).steps := (Descent.run_spec phase limit limit t).1

theorem descend_ends (t : Tableau α) (phase : Phase) (limit : Nat) :
    (t.reached (t.descend phase limit).steps).Ends phase limit (t.descend phase limit).ending :=
  (Descent.run_spec phase limit limit t).2

theorem optimal_of_descend {t last : Tableau α} {phase : Phase} {limit : Nat}
    (h : (t.descend phase limit).ending = .ok last) :
    last = t.reached (t.descend phase limit).steps ∧ last.isOptimal = true := by
  have ends := t.descend_ends phase limit
  rw [h] at ends
  generalize t.reached (t.descend phase limit).steps = u at ends
  cases ends with
  | optimal finished => exact ⟨rfl, finished⟩

theorem stuck_of_descend {t : Tableau α} {phase phase' : Phase} {limit column : Nat}
    (h : (t.descend phase limit).ending = .error (.noPivotRow phase' column)) :
    phase' = phase ∧
      (t.reached (t.descend phase limit).steps).enteringColumn = some column ∧
      (t.reached (t.descend phase limit).steps).leavingRow column = none := by
  have ends := t.descend_ends phase limit
  rw [h] at ends
  cases ends with
  | stuck _ stuck => cases stuck with
    | noRow _ entering leaving => exact ⟨rfl, entering, leaving⟩

theorem layout_reached (t : Tableau α) (phase : Phase) (limit : Nat) :
    (t.reached (t.descend phase limit).steps).layout = t.layout :=
  reached_of_along (Q := fun u => u.layout = t.layout)
    (fun _ _ chosen same => by rw [chosen.result_eq, layout_pivot, same])
    (t.descend_along phase limit) rfl

theorem constraintCount_reached (t : Tableau α) (phase : Phase) (limit : Nat) :
    (t.reached (t.descend phase limit).steps).constraintCount = t.constraintCount :=
  reached_of_along (Q := fun u => u.constraintCount = t.constraintCount)
    (fun _ _ chosen same => by rw [chosen.result_eq, constraintCount_pivot, same])
    (t.descend_along phase limit) rfl

theorem descend_ne_infeasible (t : Tableau α) (phase : Phase) (limit : Nat) (sum : α) :
    (t.descend phase limit).ending ≠ .error (.infeasible sum) := by
  intro h
  have ends := t.descend_ends phase limit
  rw [h] at ends
  nomatch ends

end Tableau

end Simplex
