import Simplex.Proofs.Course
import Simplex.Proofs.Points

/-!
# What the phases stand for

Over rationals each tableau of phase 1 stands for the constraints and measures the artificial
variables, and each of phase 2 measures the costs of a feasible assignment (`represents_phaseOneEnd`,
`Pricing`). So an optimal tableau bounds the measure from below (`Represents.bound`).
-/

namespace Simplex

theorem except_bind_ok {ε β γ : Type} {e : Except ε β} {f : β → Except ε γ} {value : γ}
    (h : e >>= f = .ok value) : ∃ before, e = .ok before ∧ f before = .ok value := by
  cases e with
  | error fault => nomatch h
  | ok before => exact ⟨before, rfl, h⟩

theorem except_bind_error {ε β γ : Type} {e : Except ε β} {f : β → Except ε γ} {fault : ε}
    (h : e >>= f = .error fault) :
    e = .error fault ∨ ∃ before, e = .ok before ∧ f before = .error fault := by
  cases e with
  | error other =>
    obtain rfl : other = fault := Except.error.inj h
    exact Or.inl rfl
  | ok before => exact Or.inr ⟨before, rfl, h⟩

section
variable {α : Type} [Scalar α]

theorem Problem.eq_firstTableau {p : Problem α} {transition : Transition} {first : Tableau α}
    (h : p.phaseOneStart transition = .ok first) : first = p.firstTableau transition := by
  by_cases empty : p.constraints = []
  · rw [phaseOneStart_error empty] at h
    nomatch h
  · rw [phaseOneStart_ok empty] at h
    exact (Except.ok.inj h).symm

theorem Problem.kind_of_phaseOneStart {p : Problem α} {transition : Transition} {fault : Fault α}
    (h : p.phaseOneStart transition = .error fault) :
    fault.kind = .structural ∨ fault.kind = .internal := by
  by_cases empty : p.constraints = []
  · rw [phaseOneStart_error empty] at h
    obtain rfl := Except.error.inj h
    exact Or.inl rfl
  · rw [phaseOneStart_ok empty] at h
    nomatch h

end

namespace Tableau

variable {System : (Nat → Rat) → Prop} {measure : (Nat → Rat) → Rat}

theorem Represents.chosen {t : Tableau Rat} {step : Step Rat} (chosen : t.Chosen step)
    (h : t.Represents System measure) : step.result.Represents System measure := by
  obtain ⟨bound, positive, -⟩ := positive_of_leavingRow chosen.leaving
  rw [chosen.result_eq]
  exact h.pivot bound positive.ne'

theorem Represents.descend {t : Tableau Rat} (h : t.Represents System measure) (phase : Phase)
    (limit : Nat) : (t.reached (t.descend phase limit).steps).Represents System measure :=
  reached_of_along (Q := fun u => u.Represents System measure)
    (fun _ _ chosen before => before.chosen chosen) (t.descend_along phase limit) h

/-- Reduced costs bound what a tableau measures of nonnegative points. -/
theorem Represents.bound {t : Tableau Rat} {z : Nat → Rat} {least : Rat}
    (h : t.Represents System measure) (hz : System z) (nonneg : ∀ j, 0 ≤ z j)
    (costs : ∀ r ∈ t.reducedCosts, -least ≤ r) :
    -t.objectiveValue - least * ∑ j ∈ Finset.range t.layout.rhs, z j ≤ measure z := by
  have rows : -least * ∑ j ∈ Finset.range t.layout.rhs, z j ≤ t.rowSum z t.constraintCount := by
    rw [Finset.mul_sum, rowSum]
    apply Finset.sum_le_sum
    intro j hj
    have cost := costs _ (List.mem_map.mpr ⟨j, List.mem_range.mpr (Finset.mem_range.mp hj), rfl⟩)
    exact mul_le_mul_of_nonneg_right cost (nonneg j)
  have measured := h.measure_eq z hz
  rw [residual] at measured
  rw [objectiveValue, objectiveRow_eq]
  linarith

theorem le_of_isOptimal {t : Tableau Rat} (h : t.isOptimal = true) :
    ∀ r ∈ t.reducedCosts, -Scalar.tolerance ≤ r := by
  intro r member
  exact of_decide_eq_true (List.all_eq_true.mp h r member)

end Tableau

namespace Problem

variable {p : Problem Rat} {transition : Transition} {limit : Nat}

theorem represents_phaseOneStart {first : Tableau Rat}
    (h : p.phaseOneStart transition = .ok first) :
    first.layout = Layout.ofProblem p ∧ first.constraintCount = p.constraints.length ∧
      first.Represents p.System (Layout.ofProblem p).artificialSum := by
  obtain rfl := eq_firstTableau h
  cases transition with
  | rebuild => exact ⟨rfl, p.constraintCount_tableau .one, p.represents_tableau_one⟩
  | carryBasis =>
    refine ⟨p.layout_firstTableau .carryBasis, ?_, ?_⟩
    · exact (Tableau.constraintCount_priceFrom ..).trans (p.constraintCount_tableau .one)
    · exact p.represents_tableau_one.priceOut (Tableau.startingBasis_fits _).1

theorem represents_phaseOneEnd {last : Tableau Rat}
    (h : p.phaseOneEnd transition limit = .ok last) :
    last.layout = Layout.ofProblem p ∧ last.constraintCount = p.constraints.length ∧
      last.Represents p.System (Layout.ofProblem p).artificialSum ∧ last.isOptimal = true := by
  obtain ⟨first, started, ended⟩ := except_bind_ok h
  obtain ⟨layout, count, represents⟩ := represents_phaseOneStart started
  obtain ⟨rfl, finished⟩ := Tableau.optimal_of_descend ended
  exact ⟨(Tableau.layout_reached ..).trans layout, (Tableau.constraintCount_reached ..).trans count,
    represents.descend .one limit, finished⟩

/-- A tableau that measures the costs of a system which the points of all feasible assignments
solve. -/
structure Pricing (p : Problem Rat) (System : (Nat → Rat) → Prop) (t : Tableau Rat) : Prop where
  wide : (Layout.ofProblem p).artificialStart ≤ t.layout.rhs
  represents : t.Represents System (Tableau.costAt p.costs)
  solved : ∀ x, p.FeasibleAt x → System (p.pointAt x)

theorem Pricing.descend {System : (Nat → Rat) → Prop} {t : Tableau Rat} (h : p.Pricing System t)
    (phase : Phase) (limit : Nat) :
    p.Pricing System (t.reached (t.descend phase limit).steps) where
  wide := by
    rw [Tableau.layout_reached]
    exact h.wide
  represents := h.represents.descend phase limit
  solved := h.solved

theorem realPart_pointAt (p : Problem Rat) (x : Assignment) :
    Tableau.realPart (Layout.ofProblem p) (p.pointAt x) = p.pointAt x :=
  Tableau.realPart_eq fun _ hj => pointAt_artificial hj x

theorem costs_fit_phaseOneEnd {last : Tableau Rat} (h : p.phaseOneEnd transition limit = .ok last) :
    p.costs.length ≤ last.layout.artificialStart := by
  rw [(represents_phaseOneEnd h).1]
  exact p.costs_fit

theorem handover_of_phaseTwoStart {second : Tableau Rat}
    (h : p.phaseTwoStart .carryBasis limit = .ok second) :
    ∃ last carried, p.phaseOneEnd .carryBasis limit = .ok last ∧ last.handedOver = .ok carried ∧
      second = carried.recosted p.costs := by
  obtain ⟨last, ended, passed⟩ := except_bind_ok h
  rcases Tableau.carryBasis_cases (costs_fit_phaseOneEnd ended) with
    ⟨-, failed⟩ | ⟨-, carried, handed, succeeded⟩
  · rw [failed] at passed
    nomatch passed
  · refine ⟨last, carried, ended, handed, ?_⟩
    rw [succeeded] at passed
    exact (Except.ok.inj passed).symm

/-- Where a run that carries the basis over fails. -/
inductive FailsIn (p : Problem Rat) (limit : Nat) (fault : Fault Rat) : Prop
  | start (kind : fault.kind = .structural ∨ fault.kind = .internal)
  | phaseOne (first : Tableau Rat) (started : p.phaseOneStart .carryBasis = .ok first)
    (ended : (first.descend .one limit).ending = .error fault)
  | handover (last : Tableau Rat) (ended : p.phaseOneEnd .carryBasis limit = .ok last)
    (remaining : Scalar.tolerance < -last.objectiveValue)
    (found : fault = .infeasible (-last.objectiveValue))
  | phaseTwo (second : Tableau Rat) (started : p.phaseTwoStart .carryBasis limit = .ok second)
    (ended : (second.descend .two limit).ending = .error fault)

theorem failsIn {fault : Fault Rat} (h : p.phaseTwoEnd .carryBasis limit = .error fault) :
    p.FailsIn limit fault := by
  rcases except_bind_error h with early | ⟨second, started, ended⟩
  · rcases except_bind_error early with early | ⟨last, ended, passed⟩
    · rcases except_bind_error early with early | ⟨first, started, ended⟩
      · exact .start (kind_of_phaseOneStart early)
      · exact .phaseOne first started ended
    · rcases Tableau.carryBasis_cases (costs_fit_phaseOneEnd ended) with
        ⟨remaining, failed⟩ | ⟨-, carried, -, succeeded⟩
      · rw [failed] at passed
        exact .handover last ended remaining (Except.error.inj passed).symm
      · rw [succeeded] at passed
        nomatch passed
  · exact .phaseTwo second started ended

theorem pricing_handover {last carried : Tableau Rat} {measure : (Nat → Rat) → Rat}
    (layout : last.layout = Layout.ofProblem p) (represents : last.Represents p.System measure)
    (handed : last.handedOver = .ok carried) :
    p.Pricing (fun z => p.System (Tableau.realPart (Layout.ofProblem p) z))
      (carried.recosted p.costs) := by
  obtain ⟨_, same, layout', -⟩ := last.handedOver_ok
  rw [handed] at same
  obtain rfl := Except.ok.inj same
  have kept := Tableau.solves_handedOver_iff represents handed
  rw [layout] at kept layout'
  refine ⟨?_, Tableau.represents_recosted kept ?_, fun x feasible => ?_⟩
  · rw [Tableau.layout_recosted, layout']
    exact Nat.le_refl _
  · rw [layout']
    exact p.costs_fit
  · rw [realPart_pointAt]
    exact solves_pointAt feasible

theorem pricing_phaseTwoStart {second : Tableau Rat}
    (h : p.phaseTwoStart transition limit = .ok second) :
    ∃ System, p.Pricing System second := by
  cases transition with
  | rebuild =>
    obtain ⟨last, -, started⟩ := except_bind_ok h
    obtain rfl := start_eq started
    exact ⟨p.System, Layout.artificialStart_le_rhs _, p.represents_tableau_two,
      fun _ feasible => solves_pointAt feasible⟩
  | carryBasis =>
    obtain ⟨last, carried, ended, handed, rfl⟩ := handover_of_phaseTwoStart h
    obtain ⟨layout, -, represents, -⟩ := represents_phaseOneEnd ended
    exact ⟨_, pricing_handover layout represents handed⟩

theorem pricing_phaseTwoEnd {t : Tableau Rat} (h : p.phaseTwoEnd transition limit = .ok t) :
    (∃ System, p.Pricing System t) ∧ t.isOptimal = true := by
  obtain ⟨second, started, ended⟩ := except_bind_ok h
  obtain ⟨System, pricing⟩ := pricing_phaseTwoStart started
  obtain ⟨rfl, finished⟩ := Tableau.optimal_of_descend ended
  exact ⟨⟨System, pricing.descend .two limit⟩, finished⟩

theorem sum_pointAt_of_wide {n : Nat} (wide : (Layout.ofProblem p).artificialStart ≤ n)
    (x : Assignment) : ∑ j ∈ Finset.range n, p.pointAt x j = p.sizeAt x := by
  rw [← sum_pointAt, ← Finset.sum_subset (Finset.range_mono wide)]
  intro j _ outside
  exact pointAt_artificial (by simpa using outside) x

end Problem

end Simplex
