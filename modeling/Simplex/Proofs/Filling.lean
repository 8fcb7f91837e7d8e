import Simplex.Proofs.Access
import Simplex.Proofs.Course

/-!
# Starting tableaux written entry by entry

A starting tableau once more, written into a tableau of zeros: row by row the coefficients, each
added in the column of its name, the next free columns of the slack, surplus and artificial
variables, and the bound, and then the objective row. Every write is inside, the columns are used up
when the last row is written, and what has been written is the tableau of the program (`start_eq`).
-/

namespace Simplex.Problem.Strict

open Tableau (ofFn ofFn_congr zeros)
open Tableau.Strict

variable {α : Type} [Scalar α]

/-- Adds the coefficients of the terms to a row, each in the column of its name. -/
def addTerms (p : Problem α) (row : Nat) (t : Tableau α) :
    List (Term α) → Except (Fault α) (Tableau α)
  | [] => .ok t
  | term :: rest =>
    match p.column? term.name with
    | none => addTerms p row t rest
    | some column => do
      let value ← get t row column
      addTerms p row (← set t row column (value + term.coefficient)) rest

def placeOwn (row : Nat) (t : Tableau α) : OwnColumns α → Except (Fault α) (Tableau α)
  | [] => .ok t
  | (column, value) :: rest => do placeOwn row (← set t row column value) rest

/-- Writes the row of a constraint with these columns of its own. -/
def writeRow (p : Problem α) (row : Nat) (own : OwnColumns α) (c : Constraint α)
    (t : Tableau α) : Except (Fault α) (Tableau α) := do
  let summed ← addTerms p row t c.terms
  let placed ← placeOwn row summed own
  set placed row (Layout.ofProblem p).rhs c.bound

/-- Writes the rows from `row` on, and tells which columns are then free. -/
def writeRows (p : Problem α) (row : Nat) (free : FreeColumns) (t : Tableau α) :
    List (Constraint α) → Except (Fault α) (FreeColumns × Tableau α)
  | [] => .ok (free, t)
  | c :: rest => do
    let (own, others) := free.take c.relation
    writeRows p (row + 1) others (← writeRow p row own c t) rest

def start (p : Problem α) (phase : Phase) : Except (Fault α) (Tableau α) :=
  let layout := Layout.ofProblem p
  if p.constraints.isEmpty then .error .noConstraints
  else do
    let (free, t) ← writeRows p 0 layout.freeColumns (zeros layout p.constraints.length)
      p.constraints
    if free = layout.usedUp then
      match phase with
      | .one => fill t.objectiveRow layout.artificialStart t (List.replicate layout.artificial 1)
      | .two => fill t.objectiveRow 0 t p.costs
    else .error .miscounted

/-! ### A row -/

/-- The coefficients of `name`, added up on top of a value. -/
def addedOn (value : α) (terms : List (Term α)) (name : String) : α :=
  terms.foldl (fun sum t => if t.name = name then sum + t.coefficient else sum) value

section
variable {p : Problem α} {count row : Nat} {f : Nat → Nat → α}

theorem addTerms_ofFn (hr : row ≤ count) (terms : List (Term α)) :
    addTerms p row (ofFn (Layout.ofProblem p) count f) terms =
      .ok (ofFn (Layout.ofProblem p) count fun i j =>
        if i = row then match p.names[j]? with
          | some name => addedOn (f i j) terms name
          | none => f i j
        else f i j) := by
  induction terms generalizing f with
  | nil =>
    refine congrArg _ (ofFn_congr fun i _ j _ => ?_)
    cases p.names[j]? <;> simp [addedOn]
  | cons term rest ih =>
    rw [addTerms]
    cases place : p.column? term.name with
    | none =>
      dsimp only
      rw [ih]
      refine congrArg _ (ofFn_congr fun i _ j _ => ?_)
      cases there : p.names[j]? with
      | none => rfl
      | some name =>
        have other : term.name ≠ name := by
          rintro rfl
          exact List.idxOf?_eq_none_iff.mp place (List.mem_of_getElem? there)
        simp [addedOn, other]
    | some column =>
      obtain ⟨bound, same⟩ := List.getElem?_eq_some_iff.mp (column?_eq_some_iff.mp place)
      have width : column < (Layout.ofProblem p).columns :=
        lt_of_lt_of_le bound (p.length_names_le .rebuild)
      dsimp only
      rw [get_ofFn hr width, except_ok_bind, set_ofFn hr width, except_ok_bind, ih]
      refine congrArg _ (ofFn_congr fun i _ j _ => ?_)
      by_cases own : i = row
      · subst own
        cases there : p.names[j]? with
        | none =>
          have other : j ≠ column := by
            rintro rfl
            rw [List.getElem?_eq_getElem bound] at there
            nomatch there
          simp [other]
        | some name =>
          obtain ⟨inside, rfl⟩ := List.getElem?_eq_some_iff.mp there
          have here : term.name = p.names[j] ↔ j = column := by
            rw [← same, p.nodup_names.getElem_inj_iff, eq_comm]
          by_cases at_column : j = column
          · simp [addedOn, here.mpr at_column, at_column]
          · simp [addedOn, mt here.mp at_column, at_column]
      · simp [own]

theorem placeOwn_ofFn {layout : Layout} (hr : row ≤ count) {own : OwnColumns α}
    (nodup : (own.map Prod.fst).Nodup) (inside : ∀ q ∈ own, q.1 < layout.columns) :
    placeOwn row (ofFn layout count f) own =
      .ok (ofFn layout count fun i j =>
        if i = row then (own.lookup j).getD (f i j) else f i j) := by
  induction own generalizing f with
  | nil =>
    refine congrArg _ (ofFn_congr fun i _ j _ => ?_)
    simp
  | cons q rest ih =>
    obtain ⟨column, value⟩ := q
    rw [List.map_cons, List.nodup_cons] at nodup
    have absent : rest.lookup column = none := by
      rw [List.lookup_eq_none_iff]
      intro q member
      rw [bne_iff_ne]
      rintro rfl
      exact nodup.1 (List.mem_map.mpr ⟨q, member, rfl⟩)
    rw [placeOwn, set_ofFn hr (inside (column, value) List.mem_cons_self), except_ok_bind,
      ih nodup.2 fun q member => inside q (List.mem_cons_of_mem _ member)]
    refine congrArg _ (ofFn_congr fun i _ j _ => ?_)
    rw [List.lookup_cons]
    by_cases here : j = column
    · simp [here, absent]
    · simp [here, beq_eq_false_iff_ne.mpr here]

/-- The entry of column `j` in the row of a constraint. -/
def entryOf (p : Problem α) (c : Constraint α) (own : OwnColumns α) (j : Nat) : α :=
  if j = (Layout.ofProblem p).rhs then c.bound
  else match p.names[j]? with
    | some name => c.coefficientOf name
    | none => (own.lookup j).getD 0

theorem writeRow_ofFn (hr : row ≤ count) {own : OwnColumns α} (c : Constraint α)
    (blank : ∀ j, f row j = 0) (nodup : (own.map Prod.fst).Nodup)
    (inside : ∀ q ∈ own, p.names.length ≤ q.1 ∧ q.1 < (Layout.ofProblem p).rhs) :
    writeRow p row own c (ofFn (Layout.ofProblem p) count f) =
      .ok (ofFn (Layout.ofProblem p) count fun i j =>
        if i = row then entryOf p c own j else f i j) := by
  rw [writeRow, addTerms_ofFn hr, except_ok_bind,
    placeOwn_ofFn hr nodup fun q member => Nat.lt_succ_of_lt (inside q member).2, except_ok_bind,
    set_ofFn hr (Layout.rhs_lt_columns _)]
  refine congrArg _ (ofFn_congr fun i _ j _ => ?_)
  by_cases same : i = row
  · subst same
    by_cases last : j = (Layout.ofProblem p).rhs
    · simp [entryOf, last]
    · cases there : p.names[j]? with
      | none => simp [entryOf, last, there, blank]
      | some name =>
        -- the columns of its own stand behind those of the names
        have free : own.lookup j = none := by
          rw [List.lookup_eq_none_iff]
          intro q member
          have bound := (List.getElem?_eq_some_iff.mp there).1
          have behind := (inside q member).1
          rw [bne_iff_ne]
          omega
        simp [entryOf, last, there, free, blank]
        rfl
  · simp [same]

end

/-! ### All rows -/

/-- The entries when the first `n` rows are written. -/
def written (p : Problem α) (n i j : Nat) : α :=
  match p.constraints[i]? with
  | some c => if i < n then entryOf p c (p.ownOf i c.relation) j else 0
  | none => 0

theorem written_blank (p : Problem α) (n j : Nat) : written p n n j = 0 := by
  unfold written
  cases p.constraints[n]? <;> simp

theorem freeBefore_succ {p : Problem α} {n : Nat} (hn : n < p.constraints.length) :
    p.freeBefore (n + 1) = ((p.freeBefore n).take (α := α) p.constraints[n].relation).2 := by
  have next : (p.constraints.map (·.relation)).take (n + 1) =
      (p.constraints.map (·.relation)).take n ++ [p.constraints[n].relation] := by
    rw [List.take_succ_eq_append_getElem (by simpa using hn), List.getElem_map]
  rw [FreeColumns.take_snd, freeBefore, freeBefore, FreeColumns.behind_append, next]

theorem freeBefore_length (p : Problem α) :
    p.freeBefore p.constraints.length = (Layout.ofProblem p).usedUp := by
  rw [← p.ownColumns_snd, ownColumns, FreeColumns.takeAll_snd, freeBefore,
    List.take_of_length_le (by simp)]

theorem writeRows_written {p : Problem α} {n : Nat} {rest : List (Constraint α)}
    (left : p.constraints.drop n = rest) (hn : n ≤ p.constraints.length) :
    writeRows p n (p.freeBefore n) (ofFn (Layout.ofProblem p) p.constraints.length (written p n))
        rest =
      .ok (p.freeBefore p.constraints.length, ofFn (Layout.ofProblem p) p.constraints.length
        (written p p.constraints.length)) := by
  induction rest generalizing n with
  | nil =>
    obtain rfl : n = p.constraints.length := Nat.le_antisymm hn (List.drop_eq_nil_iff.mp left)
    rfl
  | cons c rest ih =>
    have bound : n < p.constraints.length := by
      by_contra outside
      rw [List.drop_eq_nil_of_le (Nat.le_of_not_lt outside)] at left
      nomatch left
    rw [List.drop_eq_getElem_cons bound] at left
    obtain ⟨rfl, later⟩ := List.cons.inj left
    have row : writeRow p n (p.ownOf n p.constraints[n].relation) p.constraints[n]
        (ofFn (Layout.ofProblem p) p.constraints.length (written p n)) =
          .ok (ofFn (Layout.ofProblem p) p.constraints.length (written p (n + 1))) := by
      rw [writeRow_ofFn hn _ (written_blank p n) (nodup_ownOf bound)
        fun q member => ownOf_inside bound member]
      refine congrArg _ (ofFn_congr fun i _ j _ => ?_)
      by_cases same : i = n
      · subst same
        simp [written, bound]
      · have before : i < n + 1 ↔ i < n := by omega
        simp [written, same, before]
    have onward := ih later bound
    rw [freeBefore_succ bound] at onward
    rw [writeRows]
    show writeRow p n (p.ownOf n p.constraints[n].relation) _ _ >>= _ = _
    rw [row, except_ok_bind]
    exact onward

/-- Behind the rows, an objective row that is zero around the values written into it completes the
tableau of a phase if that row is its own. -/
theorem fill_written {p : Problem α} {phase : Phase} {first : Nat} {values : List α}
    (fits : first + values.length ≤ (Layout.ofProblem p).columns)
    (objective : ∀ j < (Layout.ofProblem p).columns,
      (if first ≤ j then (values[j - first]?).getD 0 else 0) =
        (p.tableau phase).entry p.constraints.length j) :
    fill p.constraints.length first (ofFn (Layout.ofProblem p) p.constraints.length
      (written p p.constraints.length)) values = .ok (p.tableau phase) := by
  rw [fill_ofFn (Nat.le_refl _) (Nat.le_of_add_right_le fits), if_pos fits]
  refine congrArg _ (Tableau.ext_entry rfl (by simp) fun i j hi hj => ?_)
  rw [Tableau.constraintCount_ofFn] at hi
  rw [Tableau.layout_ofFn] at hj
  rw [Tableau.entry_ofFn hi hj]
  rcases hi.lt_or_eq with before | rfl
  · have row : written p p.constraints.length i j =
        entryOf p p.constraints[i] (p.ownOf i p.constraints[i].relation) j := by
      rw [written, List.getElem?_eq_getElem before]
      exact if_pos before
    rw [if_neg fun both => before.ne both.1, row, entryOf]
    by_cases last : j = (Layout.ofProblem p).rhs
    · rw [if_pos last, last]
      exact (rhs_tableau phase before).symm
    · rw [if_neg last]
      exact (entry_tableau phase before (lt_of_le_of_ne (Nat.le_of_lt_succ hj) last)).symm
  · rw [← objective j hj]
    simp [written]

theorem getD_ones (l : Layout) (j : Nat) :
    (if l.artificialStart ≤ j then
      ((List.replicate l.artificial (1 : α))[j - l.artificialStart]?).getD 0 else 0) =
        if l.isArtificial j then 1 else 0 := by
  have whole : l.rhs = l.artificialStart + l.artificial := rfl
  rw [List.getElem?_replicate, Layout.isArtificial]
  by_cases low : l.artificialStart ≤ j
  · have same : j - l.artificialStart < l.artificial ↔ j < l.rhs := by omega
    by_cases high : j < l.rhs <;> simp [low, high, same]
  · simp [low]

theorem start_eq (p : Problem α) (phase : Phase) : start p phase = p.start phase := by
  by_cases empty : p.constraints.isEmpty = true
  · rw [start, Problem.start]
    exact (if_pos empty).trans (if_pos empty).symm
  have blank : zeros (Layout.ofProblem p) p.constraints.length =
      ofFn (Layout.ofProblem p) p.constraints.length (written p 0) := by
    refine ofFn_congr fun i _ j _ => ?_
    cases there : p.constraints[i]? <;> simp [written, there]
  have rows := writeRows_written (p := p) (n := 0) List.drop_zero (Nat.zero_le _)
  rw [start_ok (by simpa using empty), start]
  dsimp only
  rw [if_neg empty, blank]
  show writeRows p 0 (p.freeBefore 0) _ _ >>= _ = _
  rw [rows, except_ok_bind, freeBefore_length]
  dsimp only
  rw [if_pos rfl, Tableau.objectiveRow_eq, Tableau.constraintCount_ofFn]
  cases phase with
  | one =>
    refine fill_written ?_ fun j hj => ?_
    · rw [List.length_replicate]
      exact Nat.le_succ _
    · rw [objective_tableau p .one hj]
      exact getD_ones _ j
  | two =>
    refine fill_written ?_ fun j hj => ?_
    · rw [Nat.zero_add]
      exact Nat.le_trans p.costs_fit
        (Nat.le_trans (Layout.artificialStart_le_rhs _) (Nat.le_succ _))
    · rw [objective_tableau p .two hj]
      simp

end Simplex.Problem.Strict
