import Simplex.Proofs.Steps

/-!
# Every access checked

The operations on tableaux once more, each read and each write of an entry refused outside the
tableau and each result refused unless it fits its layout. None is ever refused: a pivot and a
descent are those that the solver works with (`pivot_eq`, `run_eq`), whatever the arithmetic makes of
the entries.
-/

namespace Simplex

/-! ### Lists of checked steps -/

section
variable {ε β γ : Type} {l : List β}

theorem except_ok_bind (value : β) (f : β → Except ε γ) : Except.ok value >>= f = f value := rfl

theorem mapM_ok {f : β → Except ε γ} {g : β → γ} (h : ∀ x ∈ l, f x = .ok (g x)) :
    l.mapM f = .ok (l.map g) := by
  induction l with
  | nil => rfl
  | cons first rest ih =>
    rw [List.mapM_cons, h first List.mem_cons_self,
      ih fun x member => h x (List.mem_cons_of_mem first member)]
    rfl

theorem findM?_ok {f : β → Except ε Bool} {g : β → Bool} (h : ∀ x ∈ l, f x = .ok (g x)) :
    l.findM? f = .ok (l.find? g) := by
  induction l with
  | nil => rfl
  | cons first rest ih =>
    rw [List.findM?, h first List.mem_cons_self, List.find?]
    cases g first with
    | true => rfl
    | false => exact ih fun x member => h x (List.mem_cons_of_mem first member)

end

namespace Tableau

variable {α : Type} [Scalar α]

theorem ofFn_congr {layout : Layout} {count : Nat} {f g : Nat → Nat → α}
    (same : ∀ i ≤ count, ∀ j < layout.columns, f i j = g i j) :
    ofFn layout count f = ofFn layout count g := by
  refine ext_entry rfl (by rw [constraintCount_ofFn, constraintCount_ofFn]) fun i j hi hj => ?_
  rw [constraintCount_ofFn] at hi
  rw [layout_ofFn] at hj
  rw [entry_ofFn hi hj, entry_ofFn hi hj]
  exact same i hi j hj

theorem ofFn_entry (t : Tableau α) : ofFn t.layout t.constraintCount t.entry = t := by
  refine ext_entry rfl (constraintCount_ofFn ..) fun i j hi hj => ?_
  rw [constraintCount_ofFn] at hi
  exact entry_ofFn hi hj

omit [Scalar α] in
theorem inRange_iff {t : Tableau α} {i j : Nat} :
    t.InRange i j ↔ i ≤ t.constraintCount ∧ j < t.layout.columns := by
  rw [InRange, length_rows, Nat.lt_succ_iff]

namespace Strict

/-! ### Reading and writing -/

def get (t : Tableau α) (row column : Nat) : Except (Fault α) α := Checked.entry t row column

def rhs (t : Tableau α) (row : Nat) : Except (Fault α) α := get t row t.layout.rhs

def set (t : Tableau α) (row column : Nat) (value : α) : Except (Fault α) (Tableau α) :=
  if t.InRange row column then
    .ok (ofFn t.layout t.constraintCount fun i j =>
      if i = row ∧ j = column then value else t.entry i j)
  else .error (.outside row column)

/-- Writes the values into a row, from `column` on. -/
def fill (row column : Nat) (t : Tableau α) : List α → Except (Fault α) (Tableau α)
  | [] => .ok t
  | value :: rest => do fill row (column + 1) (← set t row column value) rest

/-- The tableau of these entries in rows of `width`, if they fit the layout. -/
def build (layout : Layout) (count width : Nat) (f : Nat → Nat → Except (Fault α) α) :
    Except (Fault α) (Tableau α) := do
  let rows ← (List.range (count + 1)).mapM fun i => (List.range width).mapM (f i)
  ofRows layout width rows

section
variable {t : Tableau α} {i j : Nat}

theorem get_ok (hi : i ≤ t.constraintCount) (hj : j < t.layout.columns) :
    get t i j = .ok (t.entry i j) := if_pos (inRange_iff.mpr ⟨hi, hj⟩)

theorem get_error (hj : t.layout.columns ≤ j) : get t i j = .error (.outside i j) :=
  if_neg fun inside => absurd inside.2 hj.not_gt

theorem rhs_ok (hi : i ≤ t.constraintCount) : rhs t i = .ok (t.rhs i) :=
  get_ok hi (Layout.rhs_lt_columns _)

theorem objectiveValue_ok (t : Tableau α) : rhs t t.objectiveRow = .ok t.objectiveValue :=
  rhs_ok (Nat.le_refl _)

theorem set_ok (hi : i ≤ t.constraintCount) (hj : j < t.layout.columns) (value : α) :
    set t i j value = .ok (ofFn t.layout t.constraintCount fun k l =>
      if k = i ∧ l = j then value else t.entry k l) := if_pos (inRange_iff.mpr ⟨hi, hj⟩)

theorem set_error (hj : t.layout.columns ≤ j) (value : α) :
    set t i j value = .error (.outside i j) := if_neg fun inside => absurd inside.2 hj.not_gt

end

theorem set_ofFn {layout : Layout} {count i j : Nat} {f : Nat → Nat → α} (hi : i ≤ count)
    (hj : j < layout.columns) (value : α) :
    set (ofFn layout count f) i j value =
      .ok (ofFn layout count fun k l => if k = i ∧ l = j then value else f k l) := by
  have row : i ≤ (ofFn layout count f).constraintCount := by rwa [constraintCount_ofFn]
  rw [set_ok row hj, constraintCount_ofFn, layout_ofFn]
  refine congrArg _ (ofFn_congr fun k hk l hl => ?_)
  rw [entry_ofFn hk hl]

theorem get_ofFn {layout : Layout} {count i j : Nat} {f : Nat → Nat → α} (hi : i ≤ count)
    (hj : j < layout.columns) : get (ofFn layout count f) i j = .ok (f i j) := by
  rw [get_ok (by rwa [constraintCount_ofFn]) hj, entry_ofFn hi hj]

/-- The entries of a row behind writing the values into it, from `column` on. -/
theorem fill_ofFn {layout : Layout} {count row column : Nat} {f : Nat → Nat → α}
    (hr : row ≤ count) (hc : column ≤ layout.columns) (values : List α) :
    fill row column (ofFn layout count f) values =
      if column + values.length ≤ layout.columns then
        .ok (ofFn layout count fun i j =>
          if i = row ∧ column ≤ j then (values[j - column]?).getD (f i j) else f i j)
      else .error (.outside row layout.columns) := by
  induction values generalizing column f with
  | nil =>
    rw [fill, List.length_nil, Nat.add_zero, if_pos hc]
    simp
  | cons value rest ih =>
    rw [fill, List.length_cons, Nat.add_comm rest.length, ← Nat.add_assoc]
    rcases hc.lt_or_eq with inside | rfl
    · rw [set_ofFn hr inside]
      show fill row (column + 1) _ rest = _
      rw [ih inside]
      refine if_congr Iff.rfl (congrArg _ (ofFn_congr fun i _ j _ => ?_)) rfl
      by_cases same : i = row
      · subst same
        rcases Nat.lt_trichotomy j column with before | rfl | behind
        · simp [before.not_ge, before.ne, Nat.not_le.mpr (Nat.lt_succ_of_lt before)]
        · simp
        · obtain ⟨k, rfl⟩ := Nat.exists_eq_add_of_lt behind
          have place : column + k + 1 - column = k + 1 := by omega
          have place' : column + k + 1 - (column + 1) = k := by omega
          have low : column ≤ column + k + 1 := behind.le
          simp [place, place', low, behind.ne']
      · simp [same]
    · have refused : set (ofFn layout count f) row layout.columns value =
          .error (.outside row layout.columns) := set_error (Nat.le_refl _) value
      rw [refused, if_neg (by omega)]
      rfl

omit [Scalar α] in
theorem build_ok {layout : Layout} {count : Nat} {f : Nat → Nat → Except (Fault α) α}
    {g : Nat → Nat → α} (h : ∀ i ≤ count, ∀ j < layout.columns, f i j = .ok (g i j)) :
    build layout count layout.columns f = .ok (ofFn layout count g) := by
  have row : ∀ i ∈ List.range (count + 1), (List.range layout.columns).mapM (f i) =
      .ok ((List.range layout.columns).map (g i)) := fun i hi =>
    mapM_ok fun j hj => h i (Nat.le_of_lt_succ (List.mem_range.mp hi)) j (List.mem_range.mp hj)
  have fits := (ofFn layout count g).length_of_mem
  rw [build, mapM_ok row]
  exact dif_pos ⟨(ofFn layout count g).rows_ne_nil, rfl, fits⟩

/-! ### Descents -/

def reducedCosts (t : Tableau α) : Except (Fault α) (List α) :=
  (List.range t.layout.rhs).mapM (get t t.objectiveRow)

theorem reducedCosts_eq (t : Tableau α) : reducedCosts t = .ok t.reducedCosts :=
  mapM_ok fun _ hj => get_ok (Nat.le_refl _) (Nat.lt_succ_of_lt (List.mem_range.mp hj))

def isOptimal (t : Tableau α) : Except (Fault α) Bool :=
  return (← reducedCosts t).all fun r => -Scalar.tolerance ≤ r

theorem isOptimal_eq (t : Tableau α) : isOptimal t = .ok t.isOptimal := by
  rw [isOptimal, reducedCosts_eq]
  rfl

def enteringColumn (t : Tableau α) : Except (Fault α) (Option Nat) :=
  return Tableau.enteringColumn.search 0 none (-Scalar.tolerance) (← reducedCosts t)

theorem enteringColumn_eq (t : Tableau α) : enteringColumn t = .ok t.enteringColumn := by
  rw [enteringColumn, reducedCosts_eq]
  rfl

def ratioPairs (t : Tableau α) (column : Nat) : Except (Fault α) (List (α × α)) :=
  (List.range t.constraintCount).mapM fun i => return (← get t i column, ← rhs t i)

def leavingRow (t : Tableau α) (column : Nat) : Except (Fault α) (Option Nat) := do
  let pairs ← ratioPairs t column
  return Tableau.leavingRow.search (Scalar.tolerance * scaleOf (pairs.map Prod.fst)) 0 none pairs

theorem leavingRow_eq (t : Tableau α) (column : Nat) :
    leavingRow t column = Checked.leavingRow t column := by
  by_cases inside : t.constraintCount = 0 ∨ column < t.layout.columns
  · have pairs : ratioPairs t column = .ok (t.ratioPairs column) := by
      refine mapM_ok fun i hi => ?_
      have bound := List.mem_range.mp hi
      have width : column < t.layout.columns := inside.resolve_left (by omega)
      rw [get_ok bound.le width, rhs_ok bound.le]
      rfl
    rw [leavingRow, pairs]
    exact (if_pos inside).symm
  · -- the row on top is the first to be read
    obtain ⟨some, outside⟩ := not_or.mp inside
    obtain ⟨count, more⟩ := Nat.exists_eq_succ_of_ne_zero some
    have refused : ratioPairs t column = .error (.outside 0 column) := by
      rw [ratioPairs, more, List.range_succ_eq_map, List.mapM_cons, get_error (by omega)]
      rfl
    rw [leavingRow, refused]
    exact (if_neg inside).symm

def pivot (t : Tableau α) (row column : Nat) : Except (Fault α) (Tableau α) := do
  let value ← get t row column
  let pivotRow ← (List.range t.layout.columns).mapM fun j => return (← get t row j) / value
  build t.layout t.constraintCount t.layout.columns fun i j =>
    match pivotRow[j]? with
    | none => .error (.outside row j)
    | some unit => do
      if i = row then return unit
      return (← get t i j) - (← get t i column) * unit

theorem pivot_eq (t : Tableau α) (row column : Nat) :
    pivot t row column = Checked.pivot t row column := by
  by_cases inside : t.InRange row column
  · obtain ⟨bound, width⟩ := inRange_iff.mp inside
    have units : ((List.range t.layout.columns).mapM fun j =>
        (return (← get t row j) / t.entry row column : Except (Fault α) α)) =
          .ok ((List.range t.layout.columns).map fun j => t.entry row j / t.entry row column) := by
      refine mapM_ok fun j hj => ?_
      rw [get_ok bound (List.mem_range.mp hj)]
      rfl
    rw [pivot, get_ok bound width, except_ok_bind, units, except_ok_bind]
    refine Eq.trans (build_ok fun i hi j hj => ?_) (if_pos inside).symm
    rw [List.getElem?_map, List.getElem?_range hj]
    show (if i = row then _ else _) = _
    by_cases own : i = row
    · rw [if_pos own, if_pos own]
      rfl
    · rw [if_neg own, if_neg own, get_ok hi hj, get_ok hi width]
      rfl
  · have refused : get t row column = .error (.outside row column) := if_neg inside
    rw [pivot, refused]
    exact (if_neg inside).symm

/-- The descent of `phase` from `t`. The objective value of each new tableau is read for the
progress table. -/
def run (phase : Phase) (limit : Nat) (remaining : Nat) (t : Tableau α) : Descent α :=
  match isOptimal t with
  | .error fault => .stopped (.error fault)
  | .ok true => .stopped (.ok t)
  | .ok false =>
    match remaining with
    | 0 => .stopped (.error (.iterationLimit phase limit))
    | remaining + 1 =>
      match enteringColumn t with
      | .error fault => .stopped (.error fault)
      | .ok none => .stopped (.error (.noImprovingColumn phase))
      | .ok (some column) =>
        match leavingRow t column with
        | .error fault => .stopped (.error fault)
        | .ok none => .stopped (.error (.noPivotRow phase column))
        | .ok (some row) =>
          match pivot t row column with
          | .error fault => .stopped (.error fault)
          | .ok next =>
            match rhs next next.objectiveRow with
            | .error fault => .stopped (.error fault)
            | .ok _ => .after { row, column, result := next } (run phase limit remaining next)

theorem run_eq (phase : Phase) (limit remaining : Nat) (t : Tableau α) :
    run phase limit remaining t = Descent.run phase limit remaining t := by
  induction remaining generalizing t with
  | zero =>
    rw [run, Descent.run, isOptimal_eq]
    cases t.isOptimal <;> rfl
  | succ remaining ih =>
    rw [run, Descent.run, isOptimal_eq, enteringColumn_eq]
    cases t.isOptimal with
    | true => rfl
    | false =>
      cases t.enteringColumn with
      | none => rfl
      | some column =>
        simp only [leavingRow_eq, pivot_eq, objectiveValue_ok, ih]
        rfl

end Strict

end Tableau

end Simplex
