import Simplex.Proofs.Rational
import Simplex.Tableau.Pivot

/-!
# The choice of a pivot

`lt_of_enteringColumn` and `positive_of_leavingRow` say that a pivot is chosen inside the tableau,
whatever the arithmetic. Over rationals the entering column has a cost below minus the tolerance
(`cost_of_enteringColumn`), and the search for the leaving row takes the first of the rows with the
least ratio (`least_of_leavingRow_search`).
-/

namespace Simplex.Tableau

/-! ### Any arithmetic -/

section
variable {α : Type} [Scalar α]

theorem lt_of_enteringColumn_search {costs : List α} {j c : Nat} {found : Option Nat} {best : α}
    (h : enteringColumn.search j found best costs = some c) :
    found = some c ∨ c < j + costs.length := by
  induction costs generalizing j found best with
  | nil => exact Or.inl h
  | cons r rest ih =>
    unfold enteringColumn.search at h
    rw [List.length_cons]
    split at h
    · rcases ih h with same | bound
      · obtain rfl := Option.some.inj same
        exact Or.inr (by omega)
      · exact Or.inr (by omega)
    · rcases ih h with same | bound
      · exact Or.inl same
      · exact Or.inr (by omega)

theorem lt_of_enteringColumn {t : Tableau α} {column : Nat}
    (h : t.enteringColumn = some column) : column < t.layout.rhs := by
  rcases lt_of_enteringColumn_search h with none | bound
  · cases none
  · simpa [reducedCosts] using bound

theorem better_iff {ratio : α} {found : Option (Nat × α)} :
    leavingRow.better ratio found = true ↔ ∀ q ∈ found, ratio < q.2 := by
  cases found with
  | none => simp [leavingRow.better]
  | some q => simp [leavingRow.better]

theorem positive_of_leavingRow_search {threshold : α} {pairs : List (α × α)} {i r : Nat}
    {found : Option (Nat × α)} (h : leavingRow.search threshold i found pairs = some r) :
    found.map Prod.fst = some r ∨
      ∃ k, ∃ hk : k < pairs.length, r = i + k ∧ 0 < pairs[k].1 ∧ threshold < pairs[k].1 := by
  induction pairs generalizing i found with
  | nil => exact Or.inl h
  | cons p rest ih =>
    obtain ⟨a, b⟩ := p
    unfold leavingRow.search at h
    split at h
    · rename_i chosen
      rcases ih h with same | ⟨k, hk, rfl, positive, above⟩
      · obtain rfl := Option.some.inj same
        exact Or.inr ⟨0, by simp, rfl, chosen.1, chosen.2.1⟩
      · exact Or.inr ⟨k + 1, by simpa using hk, by omega, positive, above⟩
    · rcases ih h with same | ⟨k, hk, rfl, positive, above⟩
      · exact Or.inl same
      · exact Or.inr ⟨k + 1, by simpa using hk, by omega, positive, above⟩

theorem none_of_leavingRow_search {threshold : α} {pairs : List (α × α)} {i : Nat}
    {found : Option (Nat × α)} (h : leavingRow.search threshold i found pairs = none) :
    found = none ∧ ∀ p ∈ pairs, ¬ (0 < p.1 ∧ threshold < p.1) := by
  induction pairs generalizing i found with
  | nil => exact ⟨Option.map_eq_none_iff.mp h, by simp⟩
  | cons p rest ih =>
    obtain ⟨a, b⟩ := p
    unfold leavingRow.search at h
    split at h
    · cases (ih h).1
    · rename_i refused
      obtain ⟨rfl, others⟩ := ih h
      refine ⟨rfl, fun p hp => ?_⟩
      rcases List.mem_cons.mp hp with rfl | hp
      · exact fun ⟨positive, above⟩ => refused ⟨positive, above, rfl⟩
      · exact others p hp

/-- The largest magnitude of the constraint entries of a column, as the ratio test sees it. -/
def columnScale (t : Tableau α) (column : Nat) : α := scaleOf ((t.ratioPairs column).map Prod.fst)

/-- A positive entry that the ratio test takes for zero. -/
def PassesOver (t : Tableau α) (column row : Nat) : Prop :=
  0 < t.entry row column ∧ ¬ Scalar.tolerance * t.columnScale column < t.entry row column

instance (t : Tableau α) (column row : Nat) : Decidable (t.PassesOver column row) :=
  inferInstanceAs (Decidable (_ ∧ _))

theorem getElem_ratioPairs {t : Tableau α} {column i : Nat}
    (hi : i < (t.ratioPairs column).length) :
    (t.ratioPairs column)[i] = (t.entry i column, t.rhs i) := by
  simp [ratioPairs]

theorem mem_ratioPairs {t : Tableau α} {column i : Nat} (hi : i < t.constraintCount) :
    (t.entry i column, t.rhs i) ∈ t.ratioPairs column :=
  List.mem_map.mpr ⟨i, List.mem_range.mpr hi, rfl⟩

theorem positive_of_leavingRow {t : Tableau α} {column row : Nat}
    (h : t.leavingRow column = some row) :
    row < t.constraintCount ∧ 0 < t.entry row column ∧
      Scalar.tolerance * t.columnScale column < t.entry row column := by
  rcases positive_of_leavingRow_search h with none | ⟨k, hk, same, positive, above⟩
  · cases none
  · have bound : k < t.constraintCount := by simpa [ratioPairs] using hk
    rw [getElem_ratioPairs hk] at positive above
    rw [show row = k by omega]
    exact ⟨bound, positive, above⟩

theorem passesOver_of_leavingRow_none {t : Tableau α} {column i : Nat}
    (h : t.leavingRow column = none) (hi : i < t.constraintCount)
    (positive : 0 < t.entry i column) : t.PassesOver column i :=
  ⟨positive, fun above =>
    (none_of_leavingRow_search h).2 _ (mem_ratioPairs hi) ⟨positive, above⟩⟩

end

/-! ### Rationals -/

theorem cost_of_enteringColumn_search {costs : List Rat} {j c : Nat} {found : Option Nat}
    {best : Rat} (h : enteringColumn.search j found best costs = some c) :
    found = some c ∨ ∃ k, ∃ hk : k < costs.length, c = j + k ∧ costs[k] < best := by
  induction costs generalizing j found best with
  | nil => exact Or.inl h
  | cons r rest ih =>
    unfold enteringColumn.search at h
    split at h
    · rename_i lower
      rcases ih h with same | ⟨k, hk, rfl, below⟩
      · obtain rfl := Option.some.inj same
        exact Or.inr ⟨0, by simp, rfl, lower⟩
      · exact Or.inr ⟨k + 1, by simpa using hk, by omega, lt_trans below lower⟩
    · rcases ih h with same | ⟨k, hk, rfl, below⟩
      · exact Or.inl same
      · exact Or.inr ⟨k + 1, by simpa using hk, by omega, below⟩

theorem cost_of_enteringColumn {t : Tableau Rat} {column : Nat}
    (h : t.enteringColumn = some column) :
    t.entry t.constraintCount column < -Scalar.tolerance := by
  rcases cost_of_enteringColumn_search h with none | ⟨k, hk, same, below⟩
  · cases none
  · rw [show column = k by omega]
    simpa [reducedCosts] using below

/-- A row is taken for a ratio smaller than that of every candidate before it and no larger than any
other; the row found before stays if no candidate has a smaller one. -/
theorem least_of_leavingRow_search {threshold : Rat} {pairs : List (Rat × Rat)} {i r : Nat}
    {found : Option (Nat × Rat)} (h : leavingRow.search threshold i found pairs = some r) :
    (∃ q ∈ found, q.1 = r ∧ ∀ p ∈ pairs, 0 < p.1 → threshold < p.1 → q.2 ≤ p.2 / p.1) ∨
      ∃ k, ∃ hk : k < pairs.length, r = i + k ∧
        (∀ q ∈ found, pairs[k].2 / pairs[k].1 < q.2) ∧
        (∀ p ∈ pairs, 0 < p.1 → threshold < p.1 → pairs[k].2 / pairs[k].1 ≤ p.2 / p.1) ∧
        ∀ l, ∀ hl : l < k, 0 < pairs[l].1 → threshold < pairs[l].1 →
          pairs[k].2 / pairs[k].1 < pairs[l].2 / pairs[l].1 := by
  induction pairs generalizing i found with
  | nil =>
    obtain ⟨q, member, same⟩ := Option.map_eq_some_iff.mp h
    exact Or.inl ⟨q, member, same, List.forall_mem_nil _⟩
  | cons p rest ih =>
    obtain ⟨a, b⟩ := p
    unfold leavingRow.search at h
    split at h
    · rename_i chosen
      have before := better_iff.mp chosen.2.2
      rcases ih h with ⟨q, ⟨⟩, rfl, least⟩ | ⟨k, hk, rfl, below, least, first⟩
      · exact Or.inr ⟨0, by simp, rfl, before,
          List.forall_mem_cons.mpr ⟨fun _ _ => le_refl _, least⟩,
          fun l hl => absurd hl (Nat.not_lt_zero l)⟩
      · have less : rest[k].2 / rest[k].1 < b / a := below _ rfl
        refine Or.inr ⟨k + 1, by simpa using hk, by omega,
          fun q member => less.trans (before q member),
          List.forall_mem_cons.mpr ⟨fun _ _ => less.le, least⟩, fun l hl positive above => ?_⟩
        cases l with
        | zero => exact less
        | succ l => exact first l (by omega) positive above
    · rename_i refused
      -- A candidate is refused for the sake of one before it that is at least as good.
      have behind : 0 < a → threshold < a → ∃ q ∈ found, q.2 ≤ b / a := by
        intro positive above
        by_contra none
        refine refused ⟨positive, above, better_iff.mpr fun q member => ?_⟩
        exact not_le.mp fun bound => none ⟨q, member, bound⟩
      rcases ih h with ⟨q, member, rfl, least⟩ | ⟨k, hk, rfl, below, least, first⟩
      · refine Or.inl ⟨q, member, rfl, List.forall_mem_cons.mpr ⟨fun positive above => ?_, least⟩⟩
        obtain ⟨q', member', bound⟩ := behind positive above
        rwa [Option.mem_unique member member']
      · have larger : 0 < a → threshold < a → rest[k].2 / rest[k].1 < b / a := by
          intro positive above
          obtain ⟨q, member, bound⟩ := behind positive above
          exact (below q member).trans_le bound
        refine Or.inr ⟨k + 1, by simpa using hk, by omega, below,
          List.forall_mem_cons.mpr ⟨fun positive above => (larger positive above).le, least⟩,
          fun l hl positive above => ?_⟩
        cases l with
        | zero => exact larger positive above
        | succ l => exact first l (by omega) positive above

/-- The leaving row has the least ratio of the rows that the test does not pass over. -/
theorem ratio_le_of_leavingRow {t : Tableau Rat} {column row i : Nat}
    (h : t.leavingRow column = some row) (hi : i < t.constraintCount)
    (positive : 0 < t.entry i column) (seen : ¬ t.PassesOver column i) :
    t.rhs row / t.entry row column ≤ t.rhs i / t.entry i column := by
  have above : Scalar.tolerance * t.columnScale column < t.entry i column := by
    by_contra low
    exact seen ⟨positive, low⟩
  rcases least_of_leavingRow_search h with ⟨_, none, -⟩ | ⟨k, hk, same, -, least, -⟩
  · cases none
  · rw [Nat.zero_add] at same
    subst same
    have bound := least _ (mem_ratioPairs hi) positive above
    rwa [getElem_ratioPairs hk] at bound

end Simplex.Tableau
