import Simplex.Proofs.System
import Simplex.Proofs.Steps

/-!
# The handover between the phases

The artificial variables are driven out by pivots that `replacement` chooses, each of them inside
the tableau, so that the handover fails for a remaining artificial sum or not at all
(`driveOut_induction`, `carryBasis_cases`). It keeps what the tableau says about points without
artificial part (`solves_handedOver_iff`).
-/

namespace Simplex.Tableau

section
variable {α : Type} [Scalar α]

theorem replacement_spec {t : Tableau α} {row column : Nat}
    (h : t.replacement row = some column) :
    column < t.layout.artificialStart ∧ Scalar.tolerance < Scalar.abs (t.entry row column) := by
  have above := List.find?_some h
  exact ⟨List.mem_range.mp (List.mem_of_find?_eq_some h), of_decide_eq_true above⟩

theorem basic_of_artificialRows {t : Tableau α} {row : Nat} (h : row ∈ t.artificialRows) :
    ∃ column, t.basis[row]? = some (some column) ∧ t.layout.isArtificial column = true := by
  obtain ⟨⟨basic, i⟩, member, found⟩ := List.mem_filterMap.mp h
  have place := List.mem_zipIdx_iff_getElem?.mp member
  dsimp only at found place
  split at found
  · rename_i artificial
    obtain rfl := Option.some.inj found
    cases basic with
    | none => nomatch artificial
    | some column => exact ⟨column, place, artificial⟩
  · nomatch found

theorem length_basis (t : Tableau α) : t.basis.length = t.constraintCount := by
  simp [basis]

theorem lt_of_artificialRows {t : Tableau α} {row : Nat} (h : row ∈ t.artificialRows) :
    row < t.constraintCount := by
  obtain ⟨column, place, -⟩ := basic_of_artificialRows h
  rw [← length_basis]
  exact (List.getElem?_eq_some_iff.mp place).1

theorem driveOut_induction {Q : Tableau α → Prop} {t : Tableau α} {rows : List Nat}
    (inside : ∀ row ∈ rows, row < t.constraintCount)
    (kept : ∀ s row column, row ∈ rows → row < s.constraintCount →
      s.replacement row = some column → Q s → Q (s.pivot row column))
    (h : Q t) : ∃ driven, (t.driveOut rows).outcome = .ok driven ∧ Q driven := by
  induction rows generalizing t with
  | nil => exact ⟨t, rfl, h⟩
  | cons row rest ih =>
    have later : ∀ s row' column, row' ∈ rest → row' < s.constraintCount →
        s.replacement row' = some column → Q s → Q (s.pivot row' column) :=
      fun s row' column member => kept s row' column (List.mem_cons_of_mem row member)
    have bound := inside row List.mem_cons_self
    unfold driveOut
    cases found : t.replacement row with
    | none => exact ih (fun row' member => inside row' (List.mem_cons_of_mem row member)) later h
    | some column =>
      have width : column < t.layout.rhs :=
        lt_of_lt_of_le (replacement_spec found).1 t.layout.artificialStart_le_rhs
      dsimp only
      rw [Descent.checked_pivot bound width]
      refine ih ?_ later (kept t row column List.mem_cons_self bound found h)
      intro row' member
      rw [constraintCount_pivot]
      exact inside row' (List.mem_cons_of_mem row member)

/-- The tableau without its artificial variables, if they can be driven out. -/
def handedOver (t : Tableau α) : Except (Fault α) (Tableau α) :=
  (t.driveOut t.artificialRows).outcome >>= Checked.dropArtificial

theorem checked_dropArtificial (t : Tableau α) :
    Checked.dropArtificial t = .ok t.dropArtificial := by
  have width : t.layout.columns - t.layout.artificial = t.layout.withoutArtificial.columns := by
    simp only [Layout.columns, Layout.rhs, Layout.withoutArtificial, Layout.artificialStart,
      Layout.surplusStart, Layout.slackStart]
    omega
  exact if_pos width

theorem handedOver_induction {Q : Tableau α → Prop} {t : Tableau α}
    (kept : ∀ s row column, row ∈ t.artificialRows → row < s.constraintCount →
      s.replacement row = some column → Q s → Q (s.pivot row column))
    (h : Q t) : ∃ driven, t.handedOver = .ok driven.dropArtificial ∧ Q driven := by
  obtain ⟨driven, outcome, holds⟩ :=
    driveOut_induction (fun _ member => lt_of_artificialRows member) kept h
  refine ⟨driven, ?_, holds⟩
  rw [handedOver, outcome]
  exact checked_dropArtificial driven

theorem handedOver_ok (t : Tableau α) : ∃ carried, t.handedOver = .ok carried ∧
    carried.layout = t.layout.withoutArtificial ∧ carried.constraintCount = t.constraintCount := by
  obtain ⟨driven, outcome, layout, count⟩ := handedOver_induction (t := t)
    (Q := fun s => s.layout = t.layout ∧ s.constraintCount = t.constraintCount)
    (fun s row column _ _ _ same => ⟨same.1, by rw [constraintCount_pivot, same.2]⟩) ⟨rfl, rfl⟩
  refine ⟨driven.dropArtificial, outcome, ?_, ?_⟩
  · rw [dropArtificial, layout_ofFn, layout]
  · rw [dropArtificial, constraintCount_ofFn, count]

theorem lt_of_basis {t : Tableau α} {column : Nat} (h : some column ∈ t.basis) :
    column < t.layout.rhs := by
  obtain ⟨i, -, place⟩ := List.mem_map.mp h
  obtain ⟨bound, -⟩ := List.idxOf?_eq_some_iff.mp place
  simpa using bound

theorem basis_fits (t : Tableau α) :
    t.basis.length ≤ t.constraintCount ∧
      ∀ column ∈ t.basis.reduceOption, column < t.layout.columns := by
  refine ⟨t.length_basis.le, fun column member => ?_⟩
  obtain ⟨_, basic, rfl⟩ := List.mem_filterMap.mp member
  exact Nat.lt_succ_of_lt (lt_of_basis basic)

theorem withObjective_of_checked {t priced : Tableau α} {costs : List α}
    (costed : Checked.withObjective t costs = .ok priced) : priced = t.withObjective costs := by
  unfold Checked.withObjective at costed
  split at costed
  · exact (Except.ok.inj costed).symm
  · nomatch costed

/-- The tableau with `costs` in its objective row, priced out against its basis. -/
def recosted (t : Tableau α) (costs : List α) : Tableau α :=
  (t.withObjective costs).priceOut t.basis

@[simp] theorem layout_recosted (t : Tableau α) (costs : List α) :
    (t.recosted costs).layout = t.layout := layout_priceFrom ..

@[simp] theorem constraintCount_recosted (t : Tableau α) (costs : List α) :
    (t.recosted costs).constraintCount = t.constraintCount := by
  rw [recosted, priceOut, constraintCount_priceFrom, constraintCount_withObjective]

theorem carryBasis_cases {t : Tableau α} {p : Problem α}
    (fits : p.costs.length ≤ t.layout.artificialStart) :
    (Scalar.tolerance < -t.objectiveValue ∧
        (t.carryBasis p).outcome = .error (.infeasible (-t.objectiveValue))) ∨
      ¬ Scalar.tolerance < -t.objectiveValue ∧ ∃ carried, t.handedOver = .ok carried ∧
        (t.carryBasis p).outcome = .ok (carried.recosted p.costs) := by
  by_cases remaining : Scalar.tolerance < -t.objectiveValue
  · refine Or.inl ⟨remaining, ?_⟩
    unfold carryBasis
    dsimp only
    rw [if_pos remaining]
  · obtain ⟨carried, handed, layout, -⟩ := t.handedOver_ok
    refine Or.inr ⟨remaining, carried, handed, ?_⟩
    have outcome : (t.carryBasis p).outcome = t.handedOver >>= fun carried =>
        Checked.withObjective carried p.costs >>= fun priced =>
          Checked.priceOut priced carried.basis := by
      rw [carryBasis, handedOver]
      dsimp only
      rw [if_neg remaining]
      cases (t.driveOut t.artificialRows).outcome <;> rfl
    have costed : Checked.withObjective carried p.costs = .ok (carried.withObjective p.costs) := by
      refine if_pos (le_trans fits ?_)
      rw [layout]
      exact Nat.le_succ _
    have priced : Checked.priceOut (carried.withObjective p.costs) carried.basis =
        .ok (carried.recosted p.costs) := by
      refine if_pos ?_
      rw [constraintCount_withObjective, layout_withObjective]
      exact carried.basis_fits
    rw [outcome, handed]
    show Checked.withObjective carried p.costs >>= _ = _
    rw [costed]
    exact priced

end

/-! ### What a handover keeps -/

variable {System : (Nat → Rat) → Prop} {measure : (Nat → Rat) → Rat} {t carried : Tableau Rat}

theorem nonzero_of_replacement {row column : Nat} (h : t.replacement row = some column) :
    t.entry row column ≠ 0 := by
  intro zero
  have above := (replacement_spec h).2
  rw [zero, scalar_abs, abs_zero] at above
  exact absurd above tolerance_pos.le.not_gt

theorem solves_handedOver_iff (h : t.Represents System measure)
    (handed : t.handedOver = .ok carried) (z : Nat → Rat) :
    carried.Solves z ↔ System (realPart t.layout z) := by
  obtain ⟨driven, outcome, same, represents⟩ := handedOver_induction (t := t)
    (Q := fun s => s.layout = t.layout ∧ s.Represents System measure)
    (fun s row column _ bound found same =>
      ⟨same.1, same.2.pivot bound (nonzero_of_replacement found)⟩) ⟨rfl, h⟩
  rw [handed] at outcome
  obtain rfl := Except.ok.inj outcome
  rw [solves_dropArtificial_iff, represents.solves_iff, same]

theorem represents_recosted {costs : List Rat} (h : ∀ z, carried.Solves z ↔ System z)
    (fits : costs.length ≤ carried.layout.rhs) :
    (carried.recosted costs).Represents System (costAt costs) :=
  (represents_withObjective h fits).priceOut
    (by rw [length_basis, constraintCount_withObjective])

end Simplex.Tableau
