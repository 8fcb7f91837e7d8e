import Simplex.Proofs.Canonical

/-!
# Descents with their bases

A tableau does not note which column is basic in a row. `tracked` follows a descent with a basis:
the pivot column takes the place of the basic column of its row. No pivot gains or loses a solution
of the constraint rows or changes what the objective row measures of it, and a basis that is exact
in the first tableau is exact in every one (`system_and_basis_of_descend`).
-/

namespace Simplex.Tableau

section
variable {α : Type}

/-- The tableaux before each step and behind the last one, each with its basis. -/
def tracked (t : Tableau α) (basis : Nat → Option Nat) :
    List (Step α) → List (Tableau α × (Nat → Option Nat))
  | [] => [(t, basis)]
  | step :: rest => (t, basis) ::
    step.result.tracked (Function.update basis step.row (some step.column)) rest

theorem map_fst_tracked (t : Tableau α) (basis : Nat → Option Nat) (steps : List (Step α)) :
    (t.tracked basis steps).map Prod.fst = t :: steps.map (·.result) := by
  induction steps generalizing t basis with
  | nil => rfl
  | cons step rest ih => rw [tracked, List.map_cons, ih, List.map_cons]

theorem getLast?_tracked (t : Tableau α) (basis : Nat → Option Nat) (steps : List (Step α)) :
    ∃ last, (t.tracked basis steps).getLast? = some (t.reached steps, last) := by
  induction steps generalizing t basis with
  | nil => exact ⟨basis, rfl⟩
  | cons step rest ih =>
    obtain ⟨last, found⟩ := ih step.result (Function.update basis step.row (some step.column))
    exact ⟨last, by rw [tracked, List.getLast?_cons, found, reached]; rfl⟩

/-- What the steps preserve of a tableau and its basis holds of every one on their way. -/
theorem forall_tracked {P : Tableau α → Step α → Prop}
    {Q : Tableau α → (Nat → Option Nat) → Prop}
    (kept : ∀ t basis step, P t step → Q t basis →
      Q step.result (Function.update basis step.row (some step.column)))
    {t : Tableau α} {basis : Nat → Option Nat} {steps : List (Step α)} (along : t.Along P steps)
    (h : Q t basis) : ∀ q ∈ t.tracked basis steps, Q q.1 q.2 := by
  induction steps generalizing t basis with
  | nil =>
    intro q member
    obtain rfl := List.mem_singleton.mp member
    exact h
  | cons step rest ih =>
    exact List.forall_mem_cons.mpr ⟨h, ih along.2 (kept t basis step along.1 h)⟩

end

variable {t : Tableau Rat} {basis : Nat → Option Nat}

/-! ### Descents -/

theorem canonical_of_mem_tracked (h : t.Canonical basis) (full : t.IsFull basis) (phase : Phase)
    (limit : Nat) : ∀ q ∈ t.tracked basis (t.descend phase limit).steps,
      q.1.Canonical q.2 ∧ q.1.IsFull q.2 :=
  forall_tracked (Q := fun u b => u.Canonical b ∧ u.IsFull b)
    (fun _ _ _ chosen ⟨canonical, full⟩ => ⟨canonical.chosen chosen, full.chosen chosen⟩)
    (t.descend_along phase limit) ⟨h, full⟩

theorem represents_of_descend (t : Tableau Rat) (phase : Phase) (limit : Nat) {u : Tableau Rat}
    (shown : (∃ step ∈ (t.descend phase limit).steps, u = step.result) ∨
      (t.descend phase limit).ending = .ok u) :
    u.Represents t.Solves (t.residual · t.constraintCount) := by
  have own : t.Represents t.Solves (t.residual · t.constraintCount) :=
    ⟨fun _ => Iff.rfl, fun _ _ => rfl⟩
  rcases shown with ⟨step, member, rfl⟩ | ended
  · exact forall_of_along (Q := fun u => u.Represents t.Solves (t.residual · t.constraintCount))
      (fun _ _ chosen before => before.chosen chosen) (t.descend_along phase limit) own step member
  · obtain ⟨rfl, -⟩ := optimal_of_descend ended
    exact own.descend phase limit

/-- Every tableau that a descent shows or ends in has the solutions of the first one and measures
them alike. A basis with an exact column that costs nothing in every row, tracked along the pivots,
is such a basis of every tableau, so that none of them has a row without a basic column. -/
theorem system_and_basis_of_descend (t : Tableau Rat) (phase : Phase) (limit : Nat) :
    (∀ u, (∃ step ∈ (t.descend phase limit).steps, u = step.result) ∨
        (t.descend phase limit).ending = .ok u →
      ∀ z, (u.Solves z ↔ t.Solves z) ∧
        (t.Solves z → u.residual z u.constraintCount = t.residual z t.constraintCount)) ∧
    ∀ basis, t.Canonical basis → t.IsFull basis →
      (t.tracked basis (t.descend phase limit).steps).map Prod.fst =
        t :: (t.descend phase limit).steps.map (·.result) ∧
      ∀ q ∈ t.tracked basis (t.descend phase limit).steps,
        q.1.Canonical q.2 ∧ q.1.IsFull q.2 ∧ ∀ basic ∈ q.1.basis, basic ≠ none := by
  constructor
  · intro u shown z
    have represents := t.represents_of_descend phase limit shown
    exact ⟨represents.solves_iff z, represents.measure_eq z⟩
  · intro basis canonical full
    refine ⟨map_fst_tracked .., fun q member => ?_⟩
    obtain ⟨canonical', full'⟩ := canonical_of_mem_tracked canonical full phase limit q member
    exact ⟨canonical', full', fun _ => canonical'.ne_none_of_mem_basis full'⟩

/-- Phase 1 of `x₁ + x₂ = 5` and `x₁ ≥ 1`, priced out. -/
def twoArtificials : Tableau Rat :=
  ofFn { decision := 2, slack := 0, surplus := 1, artificial := 2 } 2 fun i j =>
    (([[1, 1, 0, 1, 0, 5], [1, 0, -1, 0, 1, 1], [-2, -1, 1, 0, 0, -6]].getD i []).getD j 0)

theorem system_and_basis_of_descend_artificials :
    let d := twoArtificials.descend .one 10
    let point : Nat → Rat := fun j => [1, 4, 0, 0, 0].getD j 0
    ∃ u b, d.ending = .ok u ∧ (u, b) ∈ twoArtificials.tracked (fun i => some (i + 3)) d.steps ∧
      (b 0, b 1) = (some 1, some 0) ∧ u.Solves point ∧ u.residual point u.constraintCount = 0 ∧
      u.Canonical b ∧ u.IsFull b ∧ ∀ basic ∈ u.basis, basic ≠ none := by
  intro d point
  have canonical : twoArtificials.Canonical fun i => some (i + 3) :=
    ⟨by decide +kernel, by decide +kernel⟩
  have solved : twoArtificials.Solves point := by decide +kernel
  have measured : twoArtificials.residual point twoArtificials.constraintCount = 0 := by
    decide +kernel
  have bases : ((twoArtificials.tracked (fun i => some (i + 3)) d.steps).getLast?.map fun q =>
      (q.2 0, q.2 1)) = some (some 1, some 0) := by decide +kernel
  obtain ⟨u, ended, -⟩ : Yields d.ending fun u => u.isOptimal = true := by decide +kernel
  obtain ⟨b, last⟩ := twoArtificials.getLast?_tracked (fun i => some (i + 3)) d.steps
  rw [last] at bases
  rw [← (optimal_of_descend ended).1] at last
  have member := List.mem_of_getLast? last
  obtain ⟨system, tracked⟩ := system_and_basis_of_descend twoArtificials .one 10
  obtain ⟨iff, same⟩ := system u (Or.inr ended) point
  obtain ⟨-, kept⟩ := tracked _ canonical fun _ _ => rfl
  obtain ⟨canonical', full, found⟩ := kept _ member
  exact ⟨u, b, ended, member, Option.some.inj bases, iff.mpr solved, (same solved).trans measured,
    canonical', full, found⟩

end Simplex.Tableau
