import Simplex.Proofs.DoubleOrder
import Simplex.Proofs.Steps

/-!
# Improving columns among doubles

A reduced cost may be an infinity or a NaN, and no comparison with a NaN holds. So the search for
the entering column passes over a NaN, while the test for optimality fails on it. The column found
has the least of the costs that are numbers (`enteringColumn_eq_some_iff`), and the two scans
disagree just at the tableaux where a NaN is all that is not optimal (`nan_of_noImprovingColumn`).
-/

namespace Simplex.Tableau

/-! ### Any arithmetic -/

section
variable {α : Type} [Scalar α] {t : Tableau α}

def reducedCost (t : Tableau α) (j : Nat) : α := t.entry t.objectiveRow j

theorem forall_mem_reducedCosts {P : α → Prop} :
    (∀ r ∈ t.reducedCosts, P r) ↔ ∀ j < t.layout.rhs, P (t.reducedCost j) := by
  simp [reducedCosts, reducedCost]

theorem isOptimal_iff :
    t.isOptimal = true ↔ ∀ j < t.layout.rhs, -Scalar.tolerance ≤ t.reducedCost j := by
  rw [← forall_mem_reducedCosts]
  simp [isOptimal]

theorem enteringColumn_search_eq_none_iff {costs : List α} {j : Nat} {found : Option Nat}
    {best : α} : enteringColumn.search j found best costs = none ↔
      found = none ∧ ∀ r ∈ costs, ¬ r < best := by
  induction costs generalizing j found best with
  | nil => simp [enteringColumn.search]
  | cons r rest ih =>
    rw [enteringColumn.search, List.forall_mem_cons]
    split
    · rename_i lower
      rw [ih]
      exact ⟨fun all => (nomatch all.1), fun all => absurd lower all.2.1⟩
    · rename_i refused
      rw [ih]
      exact ⟨fun all => ⟨all.1, refused, all.2⟩, fun all => ⟨all.1, all.2.2⟩⟩

theorem enteringColumn_eq_none_iff :
    t.enteringColumn = none ↔ ∀ j < t.layout.rhs, ¬ t.reducedCost j < -Scalar.tolerance := by
  rw [enteringColumn, enteringColumn_search_eq_none_iff,
    forall_mem_reducedCosts (P := fun r => ¬ r < -Scalar.tolerance)]
  exact ⟨fun all => all.2, fun all => ⟨rfl, all⟩⟩

theorem noColumn_of_descend {phase phase' : Phase} {limit : Nat}
    (h : (t.descend phase limit).ending = .error (.noImprovingColumn phase')) :
    phase' = phase ∧ (t.reached (t.descend phase limit).steps).isOptimal = false ∧
      (t.reached (t.descend phase limit).steps).enteringColumn = none := by
  have ends := t.descend_ends phase limit
  rw [h] at ends
  cases ends with
  | stuck unfinished stuck => cases stuck with
    | noColumn entering => exact ⟨rfl, unfinished, entering⟩

end

/-! ### Doubles -/

section
variable {t : Tableau Float}

/-- The column has a reduced cost below minus the tolerance, the least of those that are numbers
and the first of equals. -/
structure IsEntering (t : Tableau Float) (j : Nat) : Prop where
  inside : j < t.layout.rhs
  improving : t.reducedCost j < -Scalar.tolerance
  least : ∀ k < t.layout.rhs, (t.reducedCost k).isNaN = false → t.reducedCost j ≤ t.reducedCost k
  first : ∀ k < j, (t.reducedCost k).isNaN = false → t.reducedCost j < t.reducedCost k

/-- A NaN neither becomes the best cost nor stops the search for it. -/
theorem least_of_enteringColumn_search {costs : List Float} {j c : Nat} {found : Option Nat}
    {best : Float} (number : best.isNaN = false)
    (h : enteringColumn.search j found best costs = some c) :
    found = some c ∧ (∀ r ∈ costs, ¬ r < best) ∨
      ∃ k, ∃ hk : k < costs.length, c = j + k ∧ costs[k] < best ∧
        (∀ r ∈ costs, r.isNaN = false → costs[k] ≤ r) ∧
        ∀ l, ∀ hl : l < k, costs[l].isNaN = false → costs[k] < costs[l] := by
  induction costs generalizing j found best with
  | nil => exact Or.inl ⟨h, List.forall_mem_nil _⟩
  | cons r rest ih =>
    unfold enteringColumn.search at h
    split at h
    · rename_i lower
      have own := (Double.lt_iff.mp lower).1
      rcases ih own h with ⟨same, above⟩ | ⟨k, hk, rfl, below, least, first⟩
      · obtain rfl := Option.some.inj same
        refine Or.inr ⟨0, by simp, rfl, lower, fun r' member number' => ?_,
          fun l hl => absurd hl (Nat.not_lt_zero l)⟩
        rcases List.mem_cons.mp member with rfl | member
        · exact (Double.not_lt_iff own own).mp fun less => (Double.lt_iff.mp less).2.2.false
        · exact (Double.not_lt_iff number' own).mp (above r' member)
      · refine Or.inr ⟨k + 1, by simpa using hk, by omega, Double.lt_trans below lower,
          fun r' member number' => ?_, fun l hl number' => ?_⟩
        · rcases List.mem_cons.mp member with rfl | member
          · exact Double.le_of_lt below
          · exact least r' member number'
        · cases l with
          | zero => exact below
          | succ l => exact first l (by omega) number'
    · rename_i refused
      rcases ih number h with ⟨same, above⟩ | ⟨k, hk, rfl, below, least, first⟩
      · exact Or.inl ⟨same, List.forall_mem_cons.mpr ⟨refused, above⟩⟩
      · -- A number that is refused is no better than the best so far.
        have behind : r.isNaN = false → rest[k] < r := fun number' =>
          Double.lt_of_lt_of_le below ((Double.not_lt_iff number' number).mp refused)
        refine Or.inr ⟨k + 1, by simpa using hk, by omega, below,
          fun r' member number' => ?_, fun l hl number' => ?_⟩
        · rcases List.mem_cons.mp member with rfl | member
          · exact Double.le_of_lt (behind number')
          · exact least r' member number'
        · cases l with
          | zero => exact behind number'
          | succ l => exact first l (by omega) number'

theorem IsEntering.unique {j k : Nat} (h : t.IsEntering j) (h' : t.IsEntering k) : j = k := by
  have own := (Double.lt_iff.mp h.improving).1
  have own' := (Double.lt_iff.mp h'.improving).1
  rcases lt_trichotomy j k with before | same | behind
  · have below := h.least k h'.inside own'
    exact absurd (h'.first j before own) ((Double.not_lt_iff own' own).mpr below)
  · exact same
  · have below := h'.least j h.inside own
    exact absurd (h.first k behind own') ((Double.not_lt_iff own own').mpr below)

theorem isNaN_neg_tolerance : (-Scalar.tolerance : Float).isNaN = false := by decide +kernel

theorem isEntering_of_enteringColumn {j : Nat} (h : t.enteringColumn = some j) :
    t.IsEntering j := by
  have costs : ∀ k (hk : k < t.reducedCosts.length), t.reducedCosts[k] = t.reducedCost k := by
    intro k hk
    simp [reducedCosts, reducedCost]
  rcases least_of_enteringColumn_search isNaN_neg_tolerance h with
    ⟨none, -⟩ | ⟨k, hk, same, below, least, first⟩
  · cases none
  · rw [Nat.zero_add] at same
    subst same
    rw [costs] at below
    refine ⟨by simpa [reducedCosts] using hk, below, ?_, fun l hl number => ?_⟩
    · rw [← forall_mem_reducedCosts
        (P := fun r => r.isNaN = false → t.reducedCost j ≤ r)]
      simpa only [costs] using least
    · have strictly := first l hl
      rw [costs, costs] at strictly
      exact strictly number

/-- The search finds the one column that is to enter, if there is one. -/
theorem enteringColumn_eq_some_iff {j : Nat} : t.enteringColumn = some j ↔ t.IsEntering j := by
  refine ⟨isEntering_of_enteringColumn, fun entering => ?_⟩
  cases found : t.enteringColumn with
  | none =>
    exact absurd entering.improving (enteringColumn_eq_none_iff.mp found j entering.inside)
  | some k => rw [(isEntering_of_enteringColumn found).unique entering]

/-- The two scans disagree if no cost is improving and one is not a number. -/
theorem unfinished_without_column_iff :
    t.isOptimal = false ∧ t.enteringColumn = none ↔
      (∃ j < t.layout.rhs, (t.reducedCost j).isNaN = true) ∧
        ∀ j < t.layout.rhs, ¬ t.reducedCost j < -Scalar.tolerance := by
  rw [enteringColumn_eq_none_iff, ← Bool.not_eq_true, isOptimal_iff]
  refine and_congr_left fun refused => ⟨fun unfinished => ?_, ?_⟩
  · by_contra numbers
    refine unfinished fun j hj => (Double.not_lt_iff ?_ isNaN_neg_tolerance).mp (refused j hj)
    exact Bool.eq_false_iff.mpr fun nan => numbers ⟨j, hj, nan⟩
  · rintro ⟨j, hj, nan⟩ all
    exact Double.not_le_of_isNaN (Or.inr nan) (all j hj)

/-- A descent stops for want of an improving column only where a reduced cost is a NaN. -/
theorem nan_of_noImprovingColumn (t : Tableau Float) :
    (t.isOptimal = true → t.enteringColumn = none) ∧
    (∀ j, t.enteringColumn = some j ↔ t.IsEntering j) ∧
    (t.isOptimal = false ∧ t.enteringColumn = none ↔
      (∃ j < t.layout.rhs, (t.reducedCost j).isNaN = true) ∧
        ∀ j < t.layout.rhs, ¬ t.reducedCost j < -Scalar.tolerance) ∧
    ∀ phase limit,
      (∀ phase', (t.descend phase limit).ending = .error (.noImprovingColumn phase') →
        ∃ j < (t.reached (t.descend phase limit).steps).layout.rhs,
          ((t.reached (t.descend phase limit).steps).reducedCost j).isNaN = true) ∧
      ((∀ u ∈ t :: (t.descend phase limit).steps.map (·.result),
          ∀ j < u.layout.rhs, (u.reducedCost j).isNaN = false) →
        ∀ phase', (t.descend phase limit).ending ≠ .error (.noImprovingColumn phase')) := by
  have hidden : ∀ phase phase' limit,
      (t.descend phase limit).ending = .error (.noImprovingColumn phase') →
      ∃ j < (t.reached (t.descend phase limit).steps).layout.rhs,
        ((t.reached (t.descend phase limit).steps).reducedCost j).isNaN = true := by
    intro phase phase' limit h
    obtain ⟨-, stuck⟩ := noColumn_of_descend h
    exact (unfinished_without_column_iff.mp stuck).1
  refine ⟨fun finished => ?_, fun j => enteringColumn_eq_some_iff, unfinished_without_column_iff,
    fun phase limit => ⟨fun phase' => hidden phase phase' limit, fun numbers phase' h => ?_⟩⟩
  · refine enteringColumn_eq_none_iff.mpr fun j hj => ?_
    have above := isOptimal_iff.mp finished j hj
    exact (Double.not_lt_iff (Double.le_iff.mp above).2.1 isNaN_neg_tolerance).mpr above
  · obtain ⟨j, hj, nan⟩ := hidden phase phase' limit h
    have met : t.reached (t.descend phase limit).steps ∈
        t :: (t.descend phase limit).steps.map (·.result) := by
      rw [reached_eq]
      exact List.getLastD_mem_cons
    exact Bool.false_ne_true ((numbers _ met j hj).symm.trans nan)

/-- The pivot on the first column leaves the infinite cost as it is if `entry` is zero, and takes
one infinity from another if it is minus infinity. -/
def infiniteCost (entry : Float) : Tableau Float :=
  ofFn { decision := 2, slack := 0, surplus := 0, artificial := 0 } 1 fun i j =>
    (([[1, entry, 1], [-1, 1 / 0, 0]].getD i []).getD j 0)

theorem nan_of_noImprovingColumn_infinite :
    (infiniteCost (-1 / 0)).IsEntering 0 ∧
      (∃ j < 2, (((infiniteCost (-1 / 0)).pivot 0 0).reducedCost j).isNaN = true) ∧
      ((infiniteCost 0).descend .two 3).steps.length = 1 ∧
      ((infiniteCost 0).descend .two 3).ending ≠ .error (.noImprovingColumn .two) := by
  obtain ⟨-, entering, -, descends⟩ := nan_of_noImprovingColumn (infiniteCost (-1 / 0))
  obtain ⟨-, -, -, descends'⟩ := nan_of_noImprovingColumn (infiniteCost 0)
  have ending : ((infiniteCost (-1 / 0)).descend .two 3).ending =
      .error (.noImprovingColumn .two) := by decide +kernel
  have last : (infiniteCost (-1 / 0)).reached ((infiniteCost (-1 / 0)).descend .two 3).steps =
      (infiniteCost (-1 / 0)).pivot 0 0 := by decide +kernel
  have hidden := (descends .two 3).1 .two ending
  rw [last] at hidden
  exact ⟨(entering 0).mp (by decide +kernel), hidden, by decide +kernel,
    (descends' .two 3).2 (by decide +kernel) .two⟩

end

end Simplex.Tableau
