import Simplex.Proofs.Feasibility

/-!
# Unbounded programs

A column that no row bounds is a direction without end: along it the measure falls below every
number (`Represents.falls`). Phase 1 measures a sum of nonnegative variables, so it always finds a
pivot row as long as the ratio test passes over none; in phase 2 the program is unbounded
(`unbounded_of_noPivotRow`).
-/

namespace Simplex

namespace Tableau

variable {System : (Nat → Rat) → Prop} {measure : (Nat → Rat) → Rat} {t : Tableau Rat}
  {basis : Nat → Option Nat} {column : Nat}

theorem Represents.falls (h : t.Represents System measure) (canonical : t.Canonical basis)
    (hc : column < t.layout.rhs) (cost : t.entry t.constraintCount column < 0)
    (falling : ∀ i < t.constraintCount, t.entry i column ≤ 0) {z : Nat → Rat} (hz : System z)
    (nonneg : ∀ j, 0 ≤ z j) (bound : Rat) :
    ∃ y, System y ∧ (∀ j, 0 ≤ y j) ∧ measure y < bound := by
  have cost' : 0 < -t.entry t.constraintCount column := neg_pos.mpr cost
  -- The length of the step makes up for the gap to the bound, and one more for strictness.
  let step := |measure z - bound| / -t.entry t.constraintCount column + 1
  have long : 0 ≤ step := add_nonneg (div_nonneg (abs_nonneg _) cost'.le) zero_le_one
  have level : ∀ i < t.constraintCount, t.rowSum (t.direction basis column) i = 0 :=
    fun i hi => level_direction canonical.isBasis hc hi
  obtain ⟨solved, moved⟩ := h.along hz level step
  refine ⟨_, solved, fun j => ?_, ?_⟩
  · exact add_nonneg (nonneg j) (mul_nonneg long (direction_nonneg falling j))
  · rw [moved, cost_direction canonical.isBasis canonical.isPriced hc]
    have gain : step * t.entry t.constraintCount column =
        -|measure z - bound| + t.entry t.constraintCount column := by
      rw [add_mul, one_mul, div_neg, neg_mul, div_mul_cancel₀ _ cost.ne]
    have gap := le_abs_self (measure z - bound)
    rw [gain]
    linarith

theorem falling_of_leavingRow_none (leaving : t.leavingRow column = none)
    (plain : ∀ i < t.constraintCount, ¬ t.PassesOver column i) :
    ∀ i < t.constraintCount, t.entry i column ≤ 0 := by
  intro i hi
  by_contra positive
  exact plain i hi (passesOver_of_leavingRow_none leaving hi (not_le.mp positive))

end Tableau

namespace Problem

variable {p : Problem Rat} {limit : Nat}

def stoppedIn (p : Problem Rat) (limit : Nat) : Phase → Except (Fault Rat) (Tableau Rat)
  | .one => (p.phaseOneStart .carryBasis).map fun first =>
    first.reached (first.descend .one limit).steps
  | .two => (p.phaseTwoStart .carryBasis limit).map fun second =>
    second.reached (second.descend .two limit).steps

/-- The ratio test passes over no entry of a column in the tableau that a phase stops in. -/
def StopsPlainly (p : Problem Rat) (limit : Nat) (phase : Phase) (column : Nat) : Prop :=
  OnOk (p.stoppedIn limit phase) fun t => ∀ i < t.constraintCount, ¬ t.PassesOver column i

instance instDecidableStopsPlainly (p : Problem Rat) (limit : Nat) (phase : Phase) (column : Nat) :
    Decidable (p.StopsPlainly limit phase column) := inferInstanceAs (Decidable (OnOk _ _))

/-- The basic columns found in the tableau that is handed over are exact, and rows without one are
empty. -/
def HandsOverExactly (p : Problem Rat) (limit : Nat) : Prop :=
  OnOk (p.phaseOneEnd .carryBasis limit >>= Tableau.handedOver) fun carried =>
    carried.IsBasis carried.basicColumn

instance instDecidableHandsOverExactly (p : Problem Rat) (limit : Nat) :
    Decidable (p.HandsOverExactly limit) := inferInstanceAs (Decidable (OnOk _ _))

theorem phaseOne_not_stuck {first : Tableau Rat} {phase : Phase} {column : Nat}
    (bounds : ∀ c ∈ p.constraints, 0 ≤ c.bound)
    (started : p.phaseOneStart .carryBasis = .ok first)
    (plain : ∀ i < (first.reached (first.descend .one limit).steps).constraintCount,
      ¬ (first.reached (first.descend .one limit).steps).PassesOver column i) :
    (first.descend .one limit).ending ≠ .error (.noPivotRow phase column) := by
  intro stuck
  obtain ⟨layout, -, represents⟩ := represents_phaseOneStart started
  obtain ⟨canonical, full⟩ := canonical_phaseOneStart started
  obtain ⟨-, entering, leaving⟩ := Tableau.stuck_of_descend stuck
  have feasible := isFeasible_phaseOneStart started bounds
  have solved := (represents.solves_iff _).mp (canonical.solves_basicPoint full)
  obtain ⟨basis, canonical'⟩ := Tableau.exists_canonical_descend canonical .one limit
  have cost := lt_trans (Tableau.cost_of_enteringColumn entering) (neg_neg_of_pos tolerance_pos)
  -- The artificial sum would fall below zero, though all its variables stay nonnegative.
  obtain ⟨y, -, nonneg, negative⟩ := (represents.descend .one limit).falls canonical'
    (Tableau.lt_of_enteringColumn entering) cost
    (Tableau.falling_of_leavingRow_none leaving plain) solved
    (fun j => Tableau.spread_nonneg feasible j) 0
  exact absurd negative (Finset.sum_nonneg fun j _ => nonneg j).not_gt

theorem better_of_costAt {x : Assignment} {bound : Rat}
    (h : p.costAt x < match p.direction with | .maximize => -bound | .minimize => bound) :
    p.Better (p.objectiveAt x) bound := by
  rw [costAt_eq] at h
  unfold Better
  cases kind : p.direction with
  | maximize =>
    rw [kind] at h
    exact neg_lt_neg_iff.mp h
  | minimize =>
    rw [kind] at h
    exact h

theorem isUnbounded_of_stuck {second : Tableau Rat} {phase : Phase} {column : Nat}
    (started : p.phaseTwoStart .carryBasis limit = .ok second) (exact : p.HandsOverExactly limit)
    (plain : ∀ i < (second.reached (second.descend .two limit).steps).constraintCount,
      ¬ (second.reached (second.descend .two limit).steps).PassesOver column i)
    (stuck : (second.descend .two limit).ending = .error (.noPivotRow phase column))
    {x : Assignment} (feasible : p.FeasibleAt x) : p.IsUnbounded := by
  intro bound
  obtain ⟨last, carried, ended, handed, rfl⟩ := handover_of_phaseTwoStart started
  obtain ⟨layout, -, represents, -⟩ := represents_phaseOneEnd ended
  have basis : carried.IsBasis carried.basicColumn := by
    apply exact carried
    rw [ended]
    exact handed
  obtain ⟨basis', canonical⟩ :=
    Tableau.exists_canonical_descend (Tableau.canonical_recosted basis p.costs) .two limit
  have pricing := (pricing_handover layout represents handed).descend .two limit
  obtain ⟨-, entering, leaving⟩ := Tableau.stuck_of_descend stuck
  have cost := lt_trans (Tableau.cost_of_enteringColumn entering) (neg_neg_of_pos tolerance_pos)
  obtain ⟨y, solved, nonneg, below⟩ := pricing.represents.falls canonical
    (Tableau.lt_of_enteringColumn entering) cost
    (Tableau.falling_of_leavingRow_none leaving plain) (pricing.solved x feasible)
    (pointAt_nonneg feasible.1) (match p.direction with | .maximize => -bound | .minimize => bound)
  rw [← costAt_realPart, costAt_valuesAt] at below
  refine ⟨_, feasibleAt_valuesAt solved ?_ ?_, better_of_costAt below⟩
  · intro j hj
    rw [Tableau.realPart, if_pos hj]
    exact nonneg j
  · intro j hj _
    rw [Tableau.realPart, if_neg hj.not_gt]

end Problem

/-- A run that finds no pivot row, and passes over none there, stops in phase 2. If the handover was
exact the program is unbounded as soon as it is feasible, which it is if phase 1 was exact as well. -/
theorem unbounded_of_noPivotRow {objective : String} {constraints : List String}
    {direction : Direction} {s s' : Session Rat} {p : Problem Rat} {phase : Phase} {column : Nat}
    (read : Problem.ofTexts objective constraints direction = .ok p)
    (bounds : ∀ c ∈ p.constraints, 0 ≤ c.bound) (carries : s.transition = .carryBasis)
    (failed : Session.run objective constraints direction s =
      .error (.noPivotRow phase column) s')
    (plain : p.StopsPlainly s.maxIterations phase column) :
    phase = .two ∧ (p.HandsOverExactly s.maxIterations →
      (∀ x, p.FeasibleAt x → p.IsUnbounded) ∧
        (p.PhaseOneSafe s.maxIterations → p.NoRemainder s.maxIterations → p.IsUnbounded)) := by
  have fault := Session.fault_of_run read failed
  rw [carries] at fault
  cases Problem.failsIn fault with
  | start kind => rcases kind with kind | kind <;> nomatch kind
  | phaseOne first started ended =>
    obtain ⟨rfl, -, -⟩ := Tableau.stuck_of_descend ended
    have here := plain _ (by rw [Problem.stoppedIn, started]; rfl)
    exact absurd ended (Problem.phaseOne_not_stuck bounds started here)
  | handover last ended remaining found => nomatch found
  | phaseTwo second started ended =>
    obtain ⟨rfl, -, -⟩ := Tableau.stuck_of_descend ended
    have here := plain _ (by rw [Problem.stoppedIn, started]; rfl)
    refine ⟨rfl, fun exact => ?_⟩
    have unbounded : ∀ x, p.FeasibleAt x → p.IsUnbounded :=
      fun x feasible => Problem.isUnbounded_of_stuck started exact here ended feasible
    refine ⟨unbounded, fun safe zero => ?_⟩
    obtain ⟨last, carried, ended, -⟩ := Problem.handover_of_phaseTwoStart started
    obtain ⟨basis, settled⟩ :=
      Problem.settled_of_phaseOneEnd bounds ended safe (zero last ended)
    exact unbounded _ settled.feasibleAt

theorem unbounded_of_noPivotRow_ray : ∃ p : Problem Rat,
    Problem.ofTexts "x1+x2" ["x1-x2<=1"] .maximize = .ok p ∧ p.IsUnbounded := by
  obtain ⟨p, read, bounds, plain, exact, safe, zero⟩ : Yields
      (Problem.ofTexts "x1+x2" ["x1-x2<=1"] .maximize) fun p : Problem Rat =>
        (∀ c ∈ p.constraints, 0 ≤ c.bound) ∧ p.StopsPlainly 100 .two 1 ∧
          p.HandsOverExactly 100 ∧ p.PhaseOneSafe 100 ∧ p.NoRemainder 100 := by
    decide +kernel
  have fault : (Session.outcome (Session.run "x1+x2" ["x1-x2<=1"] .maximize
      (({} : Solver).session : Session Rat))).map (·.tableau) = .error (.noPivotRow .two 1) := by
    decide +kernel
  obtain ⟨s', failed⟩ := Session.error_of_outcome fault
  exact ⟨p, read, ((unbounded_of_noPivotRow read bounds rfl failed plain).2 exact).2 safe zero⟩

/-! ### Bounded programs -/

/-- A program to maximize one variable, with constraints on `x1` alone. -/
def Problem.onAxis (name : String) (rows : List (Rat × Relation × Rat)) : Problem Rat where
  objective := { terms := [⟨1, name⟩], direction := .maximize }
  constraints := rows.map fun (a, relation, bound) => { terms := [⟨a, "x1"⟩], relation, bound }

theorem Problem.FeasibleAt.onAxis {name : String} {rows : List (Rat × Relation × Rat)}
    {x : Assignment} (h : (Problem.onAxis name rows).FeasibleAt x) (a : Rat) (relation : Relation)
    (bound : Rat) (member : (a, relation, bound) ∈ rows) : relation.Holds (a * x "x1") bound := by
  have holds := h.2 _ (List.mem_map_of_mem member)
  simpa [Constraint.HoldsAt, Constraint.leftAt, Term.sumAt] using holds

theorem Problem.not_isUnbounded_onAxis {name : String} {rows : List (Rat × Relation × Rat)}
    (cap : Rat) (capped : ∀ x, (Problem.onAxis name rows).FeasibleAt x → x name ≤ cap) :
    ¬ (Problem.onAxis name rows).IsUnbounded := by
  intro unbounded
  obtain ⟨x, feasible, better⟩ := unbounded cap
  have above : cap < 1 * x name + 0 := better
  have below := capped x feasible
  linarith

def FindsNoRow (p : Problem Rat) (phase : Phase) (column : Nat) (objective : String)
    (constraints : List String) : Prop :=
  Problem.ofTexts objective constraints .maximize = .ok p ∧ (∀ c ∈ p.constraints, 0 ≤ c.bound) ∧
    (Session.outcome (Session.run objective constraints .maximize
      (({} : Solver).session : Session Rat))).map (·.tableau) = .error (.noPivotRow phase column)

instance instDecidableFindsNoRow (p : Problem Rat) (phase : Phase) (column : Nat)
    (objective : String) (constraints : List String) :
    Decidable (FindsNoRow p phase column objective constraints) :=
  inferInstanceAs (Decidable (_ ∧ _ ∧ _))

/-- Bounded programs without a pivot row: in turn an entry is passed over in either phase, the
handover is not exact, an artificial sum remains, and a row with a smaller ratio is passed over in
phase 1. -/
theorem bounded_without_pivotRow :
    (∃ p, FindsNoRow p .two 0 "x1" ["x1<=5", "-10000000000x1<=1"] ∧ p.HandsOverExactly 100 ∧
      p.PhaseOneSafe 100 ∧ p.NoRemainder 100 ∧ ¬ p.IsUnbounded) ∧
    (∃ p, FindsNoRow p .one 0 "x1" ["x1=1", "-10000000000x1<=1"]) ∧
    (∃ p, FindsNoRow p .two 0 "x1" ["-0.0000000005x1=0"] ∧ p.StopsPlainly 100 .two 0 ∧
      p.PhaseOneSafe 100 ∧ p.NoRemainder 100 ∧ ¬ p.IsUnbounded) ∧
    (∃ p, FindsNoRow p .two 0 "x2" ["x1>=1", "x1<=0.9999999995"] ∧ p.StopsPlainly 100 .two 0 ∧
      p.HandsOverExactly 100 ∧ p.PhaseOneSafe 100 ∧ ¬ p.IsUnbounded) ∧
    ∃ p, FindsNoRow p .two 0 "x2" ["x1=1000000000000", "0.0000000001x1<=1"] ∧
      p.StopsPlainly 100 .two 0 ∧ p.HandsOverExactly 100 ∧ p.NoRemainder 100 ∧
      ¬ p.IsUnbounded := by
  refine ⟨⟨.onAxis "x1" [(1, .atMost, 5), (-10000000000, .atMost, 1)], by decide +kernel,
      by decide +kernel, by decide +kernel, by decide +kernel, ?_⟩,
    ⟨.onAxis "x1" [(1, .equal, 1), (-10000000000, .atMost, 1)], by decide +kernel⟩,
    ⟨.onAxis "x1" [(-1 / 2000000000, .equal, 0)], by decide +kernel, by decide +kernel,
      by decide +kernel, by decide +kernel, ?_⟩,
    ⟨.onAxis "x2" [(1, .atLeast, 1), (1, .atMost, 1999999999 / 2000000000)], by decide +kernel,
      by decide +kernel, by decide +kernel, by decide +kernel, ?_⟩,
    ⟨.onAxis "x2" [(1, .equal, 1000000000000), (1 / 10000000000, .atMost, 1)],
      by decide +kernel, by decide +kernel, by decide +kernel, by decide +kernel, ?_⟩⟩
  · refine Problem.not_isUnbounded_onAxis 5 fun x feasible => ?_
    have row : 1 * x "x1" ≤ 5 := feasible.onAxis 1 .atMost 5 (by simp)
    linarith
  · refine Problem.not_isUnbounded_onAxis 0 fun x feasible => ?_
    have row : -1 / 2000000000 * x "x1" = 0 :=
      feasible.onAxis (-1 / 2000000000) .equal 0 (by simp)
    linarith
  · refine Problem.not_isUnbounded_onAxis 0 fun x feasible => ?_
    have low : 1 ≤ 1 * x "x1" := feasible.onAxis 1 .atLeast 1 (by simp)
    have high : 1 * x "x1" ≤ 1999999999 / 2000000000 :=
      feasible.onAxis 1 .atMost (1999999999 / 2000000000) (by simp)
    linarith
  · refine Problem.not_isUnbounded_onAxis 0 fun x feasible => ?_
    have fixed : 1 * x "x1" = 1000000000000 := feasible.onAxis 1 .equal 1000000000000 (by simp)
    have high : 1 / 10000000000 * x "x1" ≤ 1 :=
      feasible.onAxis (1 / 10000000000) .atMost 1 (by simp)
    linarith

end Simplex
