import Simplex.Proofs.Access
import Simplex.Proofs.Course
import Simplex.Proofs.Detection
import Simplex.Solution

/-!
# Every access checked: between the phases and behind them

The operations that read which columns are basic, price out, hand over and read the solution, with
each access checked. Again none is refused: `priceStart_eq`, `carryBasis_eq`, `solution_eq`.
-/

namespace Simplex.Tableau.Strict

variable {α : Type} [Scalar α]

/-! ### Bases -/

def column (t : Tableau α) (j : Nat) : Except (Fault α) (List α) :=
  (List.range t.rows.length).mapM (get t · j)

def unitRow (t : Tableau α) (j : Nat) : Except (Fault α) (Option Nat) :=
  return (Tableau.unitRow.search 0 none (← column t j)).filter (· ≠ t.objectiveRow)

theorem unitRow_ok {t : Tableau α} {j : Nat} (hj : j < t.layout.columns) :
    unitRow t j = .ok (t.unitRow j) := by
  have entries : column t j = .ok (t.column j) := by
    refine mapM_ok fun i hi => get_ok ?_ hj
    have bound := List.mem_range.mp hi
    rw [t.length_rows] at bound
    omega
  rw [unitRow, entries]
  rfl

/-- Notes a column for a row that has none yet. -/
def claim (owners : List (Option Nat)) (row column : Nat) :
    Except (Fault α) (List (Option Nat)) :=
  match owners[row]? with
  | none => .error (.outside row column)
  | some (some _) => .ok owners
  | some none => .ok (owners.set row (some column))

def basis (t : Tableau α) : Except (Fault α) (List (Option Nat)) :=
  (List.range t.layout.rhs).foldlM (fun owners j => do
    match ← unitRow t j with
    | none => return owners
    | some row => claim owners row j) (List.replicate t.constraintCount none)

/-- For each constraint row, its first column among the first `n`. -/
def basisUpTo (t : Tableau α) (n : Nat) : List (Option Nat) :=
  (List.range t.constraintCount).map fun i => ((List.range n).map t.unitRow).idxOf? (some i)

theorem getElem?_basisUpTo {t : Tableau α} {i n : Nat} (hi : i < t.constraintCount) :
    (basisUpTo t n)[i]? = some (((List.range n).map t.unitRow).idxOf? (some i)) := by
  simp [basisUpTo, hi]

theorem idxOf?_concat {β : Type} [BEq β] (l : List β) (a b : β) :
    (l ++ [b]).idxOf? a = (l.idxOf? a).or (if b == a then some l.length else none) := by
  rw [List.idxOf?, List.findIdx?_append]
  cases same : b == a <;> simp [List.findIdx?_cons, same]

theorem claim_basisUpTo {t : Tableau α} {row n : Nat} (unit : t.unitRow n = some row) :
    claim (α := α) (basisUpTo t n) row n = .ok (basisUpTo t (n + 1)) := by
  have bound := (unitRow_eq_some_iff.mp unit).1
  have later : ∀ i, ((List.range (n + 1)).map t.unitRow).idxOf? (some i) =
      (((List.range n).map t.unitRow).idxOf? (some i)).or (if row = i then some n else none) := by
    intro i
    rw [List.range_succ, List.map_append, List.map_singleton, idxOf?_concat, unit]
    simp
  rw [claim, getElem?_basisUpTo bound]
  cases owner : ((List.range n).map t.unitRow).idxOf? (some row) with
  | some column =>
    refine congrArg _ (List.map_congr_left fun i _ => ?_)
    rw [later]
    by_cases same : row = i
    · rw [← same, owner]
      rfl
    · rw [if_neg same, Option.or_none]
  | none =>
    refine congrArg _ (List.ext_getElem? fun i => ?_)
    rw [List.getElem?_set]
    by_cases same : row = i
    · subst same
      rw [if_pos rfl, getElem?_basisUpTo bound, later, owner, if_pos rfl]
      simp [basisUpTo, bound]
    · rw [if_neg same, basisUpTo, basisUpTo, List.getElem?_map, List.getElem?_map]
      cases place : (List.range t.constraintCount)[i]? with
      | none => rfl
      | some k =>
        obtain rfl : i = k := by simpa using (List.getElem?_eq_some_iff.mp place).2
        simp [later, same]

theorem basis_eq (t : Tableau α) : basis t = .ok t.basis := by
  have found : ∀ n ≤ t.layout.rhs, (List.range n).foldlM (fun owners j => do
      match ← unitRow t j with
      | none => return owners
      | some row => claim owners row j) (List.replicate t.constraintCount none) =
        (.ok (basisUpTo t n) : Except (Fault α) _) := by
    intro n bound
    induction n with
    | zero =>
      refine congrArg Except.ok (List.ext_getElem (by simp [basisUpTo]) fun i _ _ => ?_)
      simp [basisUpTo]
    | succ n ih =>
      rw [List.range_succ, List.foldlM_append, ih (Nat.le_of_succ_le bound),
        except_ok_bind, List.foldlM_cons, unitRow_ok (by simp only [Layout.columns]; omega)]
      cases unit : t.unitRow n with
      | none =>
        refine congrArg _ (List.map_congr_left fun i _ => ?_)
        rw [List.range_succ, List.map_append, List.map_singleton, idxOf?_concat, unit]
        simp
      | some row =>
        show claim (basisUpTo t n) row n >>= _ = _
        rw [claim_basisUpTo unit]
        rfl
  exact found _ (Nat.le_refl _)

def startingBasis (t : Tableau α) : Except (Fault α) (List (Option Nat)) :=
  let columns := List.range' t.layout.slackStart t.layout.slack ++
    List.range' t.layout.artificialStart t.layout.artificial
  (List.range t.constraintCount).mapM fun i => columns.findM? fun j => return (← get t i j) == 1

theorem startingBasis_eq (t : Tableau α) : startingBasis t = .ok t.startingBasis := by
  refine mapM_ok fun i hi => findM?_ok fun j hj => ?_
  have bound := (List.mem_range.mp hi).le
  have width : j < t.layout.columns := by
    simp only [List.mem_append, List.mem_range'_1, Layout.columns, Layout.rhs,
      Layout.artificialStart, Layout.surplusStart] at hj ⊢
    omega
  rw [get_ok bound width]
  rfl

/-! ### Objective rows -/

def reduceObjective (t : Tableau α) (row : Nat) (factor : α) : Except (Fault α) (Tableau α) :=
  build t.layout t.constraintCount t.layout.columns fun i j => do
    if i = t.objectiveRow then return (← get t i j) - factor * (← get t row j)
    get t i j

theorem reduceObjective_ok {t : Tableau α} {row : Nat} (bound : row ≤ t.constraintCount)
    (factor : α) : reduceObjective t row factor = .ok (t.reduceObjective row factor) := by
  refine build_ok fun i hi j hj => ?_
  by_cases last : i = t.objectiveRow
  · rw [if_pos last, if_pos last, get_ok hi hj, get_ok bound hj]
    rfl
  · rw [if_neg last, if_neg last]
    exact get_ok hi hj

def priceFrom (row : Nat) (t : Tableau α) : List (Option Nat) → Except (Fault α) (Tableau α)
  | [] => .ok t
  | none :: rest => priceFrom (row + 1) t rest
  | some column :: rest => do
    let factor ← get t t.objectiveRow column
    if factor == 0 then priceFrom (row + 1) t rest
    else priceFrom (row + 1) (← reduceObjective t row factor) rest

theorem priceFrom_ok {t : Tableau α} {row : Nat} {basis : List (Option Nat)}
    (rows : row + basis.length ≤ t.constraintCount)
    (columns : ∀ column, some column ∈ basis → column < t.layout.columns) :
    priceFrom row t basis = .ok (t.priceFrom row basis) := by
  induction basis generalizing row t with
  | nil => rfl
  | cons basic rest ih =>
    rw [List.length_cons] at rows
    have others : ∀ column, some column ∈ rest → column < t.layout.columns :=
      fun column member => columns column (List.mem_cons_of_mem basic member)
    cases basic with
    | none => exact ih (by omega) others
    | some column =>
      have read : get t t.objectiveRow column = .ok (t.entry t.objectiveRow column) :=
        get_ok (Nat.le_refl _) (columns column List.mem_cons_self)
      rw [priceFrom, Tableau.priceFrom, read, except_ok_bind]
      split
      · exact ih (by omega) others
      · rw [reduceObjective_ok (by omega)]
        exact ih (by rw [constraintCount_reduceObjective]; omega) others

theorem priceFrom_eq {t : Tableau α} {basis : List (Option Nat)}
    (fits : basis.length ≤ t.constraintCount ∧
      ∀ column ∈ basis.reduceOption, column < t.layout.columns) :
    priceFrom 0 t basis = Checked.priceOut t basis := by
  have rows : 0 + basis.length ≤ t.constraintCount := by
    rw [Nat.zero_add]
    exact fits.1
  refine (priceFrom_ok rows fun column member => ?_).trans (if_pos fits).symm
  exact fits.2 column (List.mem_filterMap.mpr ⟨some column, member, rfl⟩)

/-- Zeros, and then the costs over them. -/
def withObjective (t : Tableau α) (costs : List α) : Except (Fault α) (Tableau α) := do
  let cleared ← fill t.objectiveRow 0 t (List.replicate t.layout.columns 0)
  fill t.objectiveRow 0 cleared costs

theorem withObjective_eq (t : Tableau α) (costs : List α) :
    withObjective t costs = Checked.withObjective t costs := by
  have zeros : fill t.objectiveRow 0 t (List.replicate t.layout.columns 0) =
      .ok (ofFn t.layout t.constraintCount fun i j =>
        if i = t.constraintCount then 0 else t.entry i j) := by
    conv_lhs => rw [← ofFn_entry t]
    rw [objectiveRow_eq, constraintCount_ofFn, layout_ofFn,
      fill_ofFn (Nat.le_refl _) (Nat.zero_le _), if_pos (by simp)]
    refine congrArg _ (ofFn_congr fun i _ j hj => ?_)
    simp [hj]
  rw [withObjective, zeros, except_ok_bind, objectiveRow_eq, fill_ofFn (Nat.le_refl _)
    (Nat.zero_le _), Nat.zero_add]
  refine if_congr Iff.rfl (congrArg _ (ofFn_congr fun i _ j _ => ?_)) rfl
  rw [objectiveRow_eq]
  by_cases last : i = t.constraintCount <;> simp [last]

/-! ### The handover -/

def replacement (t : Tableau α) (row : Nat) : Except (Fault α) (Option Nat) :=
  (List.range t.layout.artificialStart).findM? fun j =>
    return Scalar.tolerance < Scalar.abs (← get t row j)

theorem replacement_ok {t : Tableau α} {row : Nat} (bound : row ≤ t.constraintCount) :
    replacement t row = .ok (t.replacement row) := by
  refine findM?_ok fun j hj => ?_
  have width : j < t.layout.columns :=
    Nat.lt_succ_of_lt (lt_of_lt_of_le (List.mem_range.mp hj) t.layout.artificialStart_le_rhs)
  rw [get_ok bound width]
  rfl

def driveOut (t : Tableau α) : (rows : List Nat) → Handover α
  | [] => { evictions := [], outcome := .ok t }
  | row :: rest =>
    match replacement t row with
    | .error fault => { evictions := [], outcome := .error fault }
    | .ok none =>
      let h := driveOut t rest
      { h with evictions := .redundant row :: h.evictions }
    | .ok (some column) =>
      match pivot t row column with
      | .error fault => { evictions := [.swapped row column], outcome := .error fault }
      | .ok next =>
        let h := driveOut next rest
        { h with evictions := .swapped row column :: h.evictions }

theorem driveOut_eq {t : Tableau α} {rows : List Nat}
    (inside : ∀ row ∈ rows, row < t.constraintCount) : driveOut t rows = t.driveOut rows := by
  induction rows generalizing t with
  | nil => rfl
  | cons row rest ih =>
    have bound := inside row List.mem_cons_self
    have others : ∀ other ∈ rest, other < t.constraintCount :=
      fun other member => inside other (List.mem_cons_of_mem row member)
    rw [driveOut, Tableau.driveOut, replacement_ok bound.le]
    cases found : t.replacement row with
    | none =>
      dsimp only
      rw [ih others]
    | some column =>
      have width : column < t.layout.rhs :=
        lt_of_lt_of_le (replacement_spec found).1 t.layout.artificialStart_le_rhs
      dsimp only
      rw [pivot_eq, Descent.checked_pivot bound width]
      dsimp only
      rw [ih fun other member => by rw [constraintCount_pivot]; exact others other member]

/-- The columns of a matrix with `count` of them from `first` on taken out. -/
def dropArtificial (t : Tableau α) : Except (Fault α) (Tableau α) :=
  let first := t.layout.artificialStart
  let count := t.layout.artificial
  if first + count ≤ t.layout.columns then
    build t.layout.withoutArtificial t.constraintCount (t.layout.columns - count) fun i j =>
      get t i (if j < first then j else j + count)
  else .error (.outside 0 (first + count))

theorem dropArtificial_eq (t : Tableau α) : dropArtificial t = .ok t.dropArtificial := by
  have inside : t.layout.artificialStart + t.layout.artificial ≤ t.layout.columns :=
    Nat.le_succ _
  have width : t.layout.withoutArtificial.columns = t.layout.artificialStart + 1 := rfl
  have whole : t.layout.columns = t.layout.artificialStart + t.layout.artificial + 1 := rfl
  have left : t.layout.columns - t.layout.artificial = t.layout.withoutArtificial.columns := by
    omega
  rw [dropArtificial, if_pos inside, left]
  exact build_ok fun i hi j hj => get_ok hi (by split <;> omega)

def artificialRows (t : Tableau α) : Except (Fault α) (List Nat) := do
  let owners ← basis t
  return owners.zipIdx.filterMap fun (basic, row) =>
    if basic.any t.layout.isArtificial then some row else none

theorem artificialRows_eq (t : Tableau α) : artificialRows t = .ok t.artificialRows := by
  rw [artificialRows, basis_eq]
  rfl

def carryBasis (t : Tableau α) (p : Problem α) : Handover α :=
  match rhs t t.objectiveRow with
  | .error fault => { evictions := [], outcome := .error fault }
  | .ok value =>
    if Scalar.tolerance < -value then { evictions := [], outcome := .error (.infeasible (-value)) }
    else
      match artificialRows t with
      | .error fault => { evictions := [], outcome := .error fault }
      | .ok rows =>
        let driven := driveOut t rows
        { driven with
          outcome := do
            let carried ← dropArtificial (← driven.outcome)
            let owners ← basis carried
            let priced ← withObjective carried p.costs
            priceFrom 0 priced owners }

theorem carryBasis_eq (t : Tableau α) (p : Problem α) : carryBasis t p = t.carryBasis p := by
  have outcome : ∀ driven : Except (Fault α) (Tableau α), (do
      let carried ← dropArtificial (← driven)
      let owners ← basis carried
      let priced ← withObjective carried p.costs
      priceFrom 0 priced owners) = (do
        let carried ← Checked.dropArtificial (← driven)
        let priced ← Checked.withObjective carried p.costs
        Checked.priceOut priced carried.basis) := by
    rintro (fault | last)
    · rfl
    rw [except_ok_bind, except_ok_bind, dropArtificial_eq, checked_dropArtificial, except_ok_bind,
      except_ok_bind, basis_eq, except_ok_bind, withObjective_eq]
    cases costed : Checked.withObjective last.dropArtificial p.costs with
    | error fault => rfl
    | ok priced =>
      obtain rfl := withObjective_of_checked costed
      refine priceFrom_eq ?_
      rw [constraintCount_withObjective, layout_withObjective]
      exact basis_fits _
  rw [carryBasis, Tableau.carryBasis, objectiveValue_ok, artificialRows_eq]
  dsimp only
  rw [driveOut_eq fun _ => lt_of_artificialRows, outcome]

def priceStart (t : Tableau α) : Except (Fault α) (Tableau α) := do
  priceFrom 0 t (← startingBasis t)

theorem priceStart_eq (t : Tableau α) : priceStart t = t.priceStart := by
  rw [priceStart, startingBasis_eq, except_ok_bind]
  exact priceFrom_eq t.startingBasis_fits

/-! ### Solutions -/

/-- A name with the entry of its column in the objective row, if that is positive. -/
def namedCost (t : Tableau α) : String × Nat → Except (Fault α) (String × α)
  | (name, j) => do
    let cost ← get t t.objectiveRow j
    return (name, if 0 < cost then cost else 0)

/-- A name with the right-hand side of the row in which its column is basic. -/
def namedValue (t : Tableau α) (owners : List (Option Nat)) :
    String × Nat → Except (Fault α) (String × α)
  | (name, j) =>
    match owners.idxOf? (some j) with
    | none => .ok (name, 0)
    | some row => do
      let value ← rhs t row
      return (name, if Scalar.abs value < Scalar.tolerance then 0 else value)

def solution (t : Tableau α) (p : Problem α) : Readout → Except (Fault α) (Solution α)
  | .objectiveRow => do
    let values ← p.names.zipIdx.mapM (namedCost t)
    return { objective := ← rhs t t.objectiveRow, values }
  | .basicRhs => do
    let owners ← basis t
    let values ← p.names.zipIdx.mapM (namedValue t owners)
    let stored ← rhs t t.objectiveRow
    let objective := match p.direction with
      | .maximize => stored
      | .minimize => -stored
    return { objective, values }

theorem namedCost_ok {t : Tableau α} {j : Nat} (hj : j < t.layout.columns) (name : String) :
    namedCost t (name, j) = .ok (name, t.positiveCost j) := by
  have read : get t t.objectiveRow j = .ok (t.entry t.objectiveRow j) := get_ok (Nat.le_refl _) hj
  rw [namedCost, read]
  rfl

theorem namedCosts_ok {t : Tableau α} {names : List String}
    (fits : names.length ≤ t.layout.columns) :
    names.zipIdx.mapM (namedCost t) =
      .ok (names.zipIdx.map fun (name, j) => (name, t.positiveCost j)) := by
  refine mapM_ok fun (name, j) member => namedCost_ok ?_ name
  have place := List.mem_zipIdx_iff_getElem?.mp member
  exact lt_of_lt_of_le (List.getElem?_eq_some_iff.mp place).1 fits

theorem namedCosts_error {t : Tableau α} {names : List String}
    (more : t.layout.columns < names.length) :
    names.zipIdx.mapM (namedCost t) = .error (.outside t.objectiveRow t.layout.columns) := by
  have split : names = names.take t.layout.columns ++
      names[t.layout.columns] :: names.drop (t.layout.columns + 1) := by
    rw [List.getElem_cons_drop, List.take_append_drop]
  have length : (names.take t.layout.columns).length = t.layout.columns :=
    List.length_take_of_le more.le
  have refused : namedCost t (names[t.layout.columns], t.layout.columns) =
      .error (.outside t.objectiveRow t.layout.columns) := by
    rw [namedCost, get_error (Nat.le_refl _)]
    rfl
  rw [split, List.zipIdx_append, List.mapM_append, namedCosts_ok length.le, except_ok_bind, length,
    Nat.zero_add, List.zipIdx_cons, List.mapM_cons, refused]
  rfl

theorem namedValue_ok (t : Tableau α) (q : String × Nat) :
    namedValue t t.basis q = .ok (q.1, t.basicValue t.basis q.2) := by
  rw [namedValue, basicValue]
  cases place : t.basis.idxOf? (some q.2) with
  | none => rfl
  | some row =>
    dsimp only
    rw [rhs_ok (basicColumn_of_idxOf? place).1.le]
    rfl

theorem solution_eq (t : Tableau α) (p : Problem α) (readout : Readout) :
    solution t p readout = Checked.solution t p readout := by
  cases readout with
  | objectiveRow =>
    by_cases more : t.layout.columns < p.names.length
    · rw [solution, namedCosts_error more]
      exact (if_pos ⟨rfl, more⟩).symm
    · rw [solution, namedCosts_ok (Nat.le_of_not_lt more), except_ok_bind, objectiveValue_ok]
      exact (if_neg fun outside => more outside.2).symm
  | basicRhs =>
    have values : p.names.zipIdx.mapM (namedValue t t.basis) =
        .ok (p.names.zipIdx.map fun (name, j) => (name, t.basicValue t.basis j)) :=
      mapM_ok fun q _ => namedValue_ok t q
    rw [solution, basis_eq, except_ok_bind, values, except_ok_bind, objectiveValue_ok]
    exact (if_neg fun outside => nomatch outside.1).symm

end Simplex.Tableau.Strict
