import Simplex.Proofs.StandardForm

/-!
# Variables by first appearance

The variables of a program are collected from its terms as these come, each when its name is new
(`names_eq_collect`): they are the names of the terms, each once, in the order of their first
places. So every term has one column. The costs and the rows of a starting tableau are what is left
when each term has added its coefficient in its column, and no term is passed over (`spread?_costs`,
`spread?_row`). More constraints put their new names behind the others, and a variable keeps its
column (`names_append`, `column?_append`).
-/

namespace Simplex

/-! ### Names as they come -/

/-- The known names and then the new ones among the others, each when it first comes. -/
def collect (known : List String) : List String → List String
  | [] => known
  | name :: rest => if name ∈ known then collect known rest else collect (known ++ [name]) rest

theorem collect_append (known names others : List String) :
    collect known (names ++ others) = collect (collect known names) others := by
  fun_induction collect known names with
  | case1 known => rfl
  | case2 known name rest member ih => rw [List.cons_append, collect, if_pos member, ih]
  | case3 known name rest new ih => rw [List.cons_append, collect, if_neg new, ih]

theorem collect_eq (known names : List String) :
    collect known names = known ++ (firstAppearances names).filter (· ∉ known) := by
  fun_induction collect known names with
  | case1 known => simp [firstAppearances]
  | case2 known name rest member ih =>
    have known_or_new : ∀ other ∉ known, other ≠ name := fun other new same =>
      new (same ▸ member)
    rw [ih, firstAppearances, List.filter_cons_of_neg (by simpa using member), List.filter_filter]
    congr 1
    apply List.filter_congr
    intro other _
    by_cases new : other ∈ known <;> simp [new, known_or_new other]
  | case3 known name rest new ih =>
    rw [ih, firstAppearances, List.filter_cons_of_pos (by simpa using new), List.filter_filter,
      List.append_assoc, List.singleton_append]
    congr 2
    apply List.filter_congr
    intro other _
    simp [not_or]

theorem firstAppearances_eq_collect (names : List String) :
    firstAppearances names = collect [] names := by
  rw [collect_eq]
  simp

theorem firstAppearances_append (names others : List String) :
    firstAppearances (names ++ others) =
      firstAppearances names ++ (firstAppearances others).filter (· ∉ firstAppearances names) := by
  rw [firstAppearances_eq_collect, collect_append, ← firstAppearances_eq_collect, collect_eq]

theorem pairwise_firstAppearances (names : List String) :
    (firstAppearances names).Pairwise fun a b => names.idxOf a < names.idxOf b := by
  induction names with
  | nil => exact List.Pairwise.nil
  | cons first rest ih =>
    rw [firstAppearances, List.pairwise_cons]
    have behind : ∀ name ∈ (firstAppearances rest).filter (· ≠ first),
        (first :: rest).idxOf name = rest.idxOf name + 1 := by
      intro name member
      have other : name ≠ first := by simpa using (List.mem_filter.mp member).2
      exact List.idxOf_cons_ne rest other.symm
    constructor
    · intro name member
      rw [List.idxOf_cons_self, behind name member]
      exact Nat.succ_pos _
    · apply (ih.filter _).imp_of_mem
      intro a b ha hb before
      rw [behind a ha, behind b hb]
      exact Nat.succ_lt_succ before

namespace Problem

section
variable {α : Type} {p : Problem α} {name : String} {j : Nat}

/-- The place of the first term of a name among all terms. -/
def firstPlace (p : Problem α) (name : String) : Nat := (p.terms.map (·.name)).idxOf name

/-- The program with more constraints behind its own. -/
def append (p : Problem α) (more : List (Constraint α)) : Problem α :=
  { p with constraints := p.constraints ++ more }

theorem names_eq_collect (p : Problem α) : p.names = collect [] (p.terms.map (·.name)) :=
  firstAppearances_eq_collect _

theorem mem_names_iff : name ∈ p.names ↔ ∃ t ∈ p.terms, t.name = name := by
  rw [names, mem_firstAppearances, List.mem_map]

theorem pairwise_names (p : Problem α) :
    p.names.Pairwise fun a b => p.firstPlace a < p.firstPlace b :=
  pairwise_firstAppearances _

/-! ### Columns -/

theorem exists_column (member : name ∈ p.names) :
    ∃ j, p.column? name = some j ∧ ∀ k, p.names[k]? = some name ↔ k = j := by
  obtain ⟨j, there⟩ := List.mem_iff_getElem?.mp member
  have place := column?_eq_some_iff.mpr there
  refine ⟨j, place, fun k => ?_⟩
  rw [← column?_eq_some_iff, place, Option.some_inj, eq_comm]

theorem terms_append (p : Problem α) (more : List (Constraint α)) :
    (p.append more).terms = p.terms ++ more.flatMap (·.terms) := by
  simp [terms, append]

theorem names_append (p : Problem α) (more : List (Constraint α)) :
    (p.append more).names = p.names ++
      (firstAppearances ((more.flatMap (·.terms)).map (·.name))).filter (· ∉ p.names) := by
  rw [names, terms_append, List.map_append, firstAppearances_append]
  rfl

theorem column?_append (h : p.column? name = some j) (more : List (Constraint α)) :
    (p.append more).column? name = some j := by
  have there := column?_eq_some_iff.mp h
  have inside := (List.getElem?_eq_some_iff.mp there).1
  rw [column?_eq_some_iff, names_append, List.getElem?_append_left inside, there]

end

/-! ### Coefficients in their columns -/

section
variable {α : Type} [Scalar α] {p : Problem α}

/-- The sign of the objective's coefficients in the costs. -/
def sign (p : Problem α) : α :=
  match p.direction with
  | .maximize => -1
  | .minimize => 1

/-- Adds the coefficient of each term, weighed, to the value in the column of its name. It fails at
a term that has no column, or no value there. -/
def spread? (p : Problem α) (weigh : α → α) (values : List α) : List (Term α) → Option (List α)
  | [] => some values
  | t :: rest => do
    let column ← p.column? t.name
    let value ← values[column]?
    p.spread? weigh (values.set column (value + weigh t.coefficient)) rest

/-- What each variable has at the end is its value and what its terms add to it, from the left. -/
theorem spread?_map (weigh : α → α) {terms : List (Term α)}
    (covered : ∀ t ∈ terms, t.name ∈ p.names) (f : String → α) :
    p.spread? weigh (p.names.map f) terms = some (p.names.map fun name =>
      terms.foldl (fun sum t => if t.name = name then sum + weigh t.coefficient else sum)
        (f name)) := by
  induction terms generalizing f with
  | nil => rfl
  | cons t rest ih =>
    have member := covered t List.mem_cons_self
    obtain ⟨column, place, -⟩ := exists_column member
    have there := column?_eq_some_iff.mp place
    have value : (p.names.map f)[column]? = some (f t.name) := by
      rw [List.getElem?_map, there]
      rfl
    have index : p.names.idxOf t.name = column := by
      obtain ⟨inside, same⟩ := List.getElem?_eq_some_iff.mp there
      rw [← same, p.nodup_names.idxOf_getElem]
    have written : (p.names.map f).set column (f t.name + weigh t.coefficient) =
        p.names.map (Function.update f t.name (f t.name + weigh t.coefficient)) := by
      rw [p.nodup_names.map_update, if_pos member, index]
    rw [spread?, place, Option.bind_eq_bind, Option.bind_some, value, Option.bind_eq_bind,
      Option.bind_some, written, ih fun u later => covered u (List.mem_cons_of_mem t later)]
    refine congrArg some (List.map_congr_left fun name _ => ?_)
    rw [List.foldl_cons, Function.update_apply]
    by_cases own : t.name = name
    · rw [if_pos own, if_pos own.symm, own]
    · rw [if_neg own, if_neg (Ne.symm own)]

/-- All terms of an expression find their columns, and each variable gets its total. -/
theorem spread?_totals (weigh : α → α) {terms : List (Term α)}
    (covered : ∀ t ∈ terms, t.name ∈ p.names) :
    p.spread? weigh (List.replicate p.names.length 0) terms =
      some (p.names.map (totalOf weigh terms)) := by
  rw [← List.map_const', spread?_map weigh covered]
  rfl

theorem spread?_costs (p : Problem α) :
    p.spread? (p.sign * ·) (List.replicate p.names.length 0) p.objective.terms = some p.costs :=
  spread?_totals _ fun _ => p.mem_names_of_objective

/-- The entries of a row in the columns of the variables. -/
def decisionEntries (p : Problem α) (t : Tableau α) (row : Nat) : List α :=
  (List.range p.names.length).map (t.entry row)

theorem decisionEntries_eq {t : Tableau α} {row : Nat} {values : List α}
    (length : values.length = p.names.length)
    (entry : ∀ j (hj : j < values.length), t.entry row j = values[j]) :
    p.decisionEntries t row = values := by
  apply List.ext_getElem
  · rw [decisionEntries, List.length_map, List.length_range, length]
  · intro j _ hj
    rw [← entry j hj]
    simp [decisionEntries]

theorem decisionEntries_constraint (phase : Phase) {i : Nat} (hi : i < p.constraints.length) :
    p.decisionEntries (p.tableau phase) i = p.names.map p.constraints[i].coefficientOf := by
  refine decisionEntries_eq (List.length_map _) fun j hj => ?_
  rw [List.length_map] at hj
  have width : (Layout.ofProblem p).decision ≤ (Layout.ofProblem p).rhs :=
    (Layout.decision_le_artificialStart _).trans (Layout.artificialStart_le_rhs _)
  rw [entry_tableau phase hi (lt_of_lt_of_le hj width), List.getElem?_eq_getElem hj,
    List.getElem_map]

theorem decisionEntries_objective (p : Problem α) :
    p.decisionEntries (p.tableau .two) p.constraints.length = p.costs := by
  refine decisionEntries_eq p.length_costs fun j hj => ?_
  have width : j < (Layout.ofProblem p).columns :=
    hj.trans_le (p.costs_fit.trans ((Layout.artificialStart_le_rhs _).trans (Nat.le_succ _)))
  rw [objective_tableau p .two width, List.getD_eq_getElem _ _ hj]

theorem spread?_row (phase : Phase) {i : Nat} {c : Constraint α}
    (there : p.constraints[i]? = some c) :
    p.spread? id (List.replicate p.names.length 0) c.terms =
      some (p.decisionEntries (p.tableau phase) i) := by
  obtain ⟨inside, rfl⟩ := List.getElem?_eq_some_iff.mp there
  rw [decisionEntries_constraint phase inside,
    spread?_totals _ fun _ => p.mem_names_of_constraint (List.getElem_mem inside)]
  rfl

/-- The variables are the names of the terms, each once and in the order of their first places. Each
term has the column of its name and no other. Adding all coefficients of the objective in the
columns of their terms gives the costs, which are the objective row of phase 2, and adding those of
a constraint gives its row in the starting tableau of both phases. More constraints leave the
variables and their columns as they are and put new ones behind them. -/
theorem columns_of_names (p : Problem α) (more : List (Constraint α)) :
    (p.names = collect [] (p.terms.map (·.name)) ∧ p.names.Nodup ∧
      (∀ name, name ∈ p.names ↔ ∃ t ∈ p.terms, t.name = name) ∧
      p.names.Pairwise fun a b => p.firstPlace a < p.firstPlace b) ∧
    (∀ t ∈ p.terms, ∃ j, p.column? t.name = some j ∧ ∀ k, p.names[k]? = some t.name ↔ k = j) ∧
    p.spread? (p.sign * ·) (List.replicate p.names.length 0) p.objective.terms = some p.costs ∧
    (p.constraints ≠ [] → ∀ phase, ∃ t, p.start phase = .ok t ∧
      (∀ i c, p.constraints[i]? = some c →
        p.spread? id (List.replicate p.names.length 0) c.terms = some (p.decisionEntries t i)) ∧
      (phase = .two → p.decisionEntries t t.objectiveRow = p.costs)) ∧
    ((∃ added, (p.append more).names = p.names ++ added) ∧
      ∀ name j, p.column? name = some j → (p.append more).column? name = some j) := by
  refine ⟨⟨p.names_eq_collect, p.nodup_names, fun _ => mem_names_iff, p.pairwise_names⟩,
    fun t member => exists_column (mem_names_iff.mpr ⟨t, member, rfl⟩), p.spread?_costs,
    fun some phase => ⟨p.tableau phase, start_ok some phase, fun _ _ => spread?_row phase, ?_⟩,
    ⟨_, p.names_append more⟩, fun _ _ place => column?_append place more⟩
  rintro rfl
  rw [Tableau.objectiveRow_eq, constraintCount_tableau, decisionEntries_objective]

end

/-- A variable of the objective that stands in a constraint too, two of the constraints only, and
one that stands twice in a constraint. -/
def fourNames : Problem Rat where
  objective :=
    { terms := [{ coefficient := 1, name := "y" }, { coefficient := 2, name := "x2" }]
      direction := .maximize }
  constraints := [
    { terms := [{ coefficient := 1, name := "z" }, { coefficient := 1, name := "y" },
        { coefficient := -4, name := "z" }], relation := .atMost, bound := 1 },
    { terms := [{ coefficient := 1, name := "x1" }, { coefficient := 3, name := "z" }],
      relation := .atLeast, bound := 0 }]

def oneMoreName : Constraint Rat where
  terms := [{ coefficient := 5, name := "x1" }, { coefficient := 1, name := "w" }]
  relation := .equal
  bound := 2

theorem columns_of_names_four :
    fourNames.names = ["y", "x2", "z", "x1"] ∧ fourNames.costs = [-1, -2, 0, 0] ∧
      (∃ t, fourNames.start .one = .ok t ∧ fourNames.decisionEntries t 0 = [1, 0, -3, 0]) ∧
      (fourNames.append [oneMoreName]).column? "x1" = some 3 ∧
      (fourNames.append [oneMoreName]).column? "w" = some 4 := by
  obtain ⟨-, -, costs, rows, -, kept⟩ := columns_of_names fourNames [oneMoreName]
  refine ⟨by decide +kernel, Option.some.inj ?_, ?_, kept "x1" 3 (by decide +kernel),
    by decide +kernel⟩
  · rw [← costs]
    decide +kernel
  obtain ⟨t, started, row, -⟩ := rows (by decide) .one
  refine ⟨t, started, Option.some.inj ?_⟩
  rw [← row 0 _ rfl]
  decide +kernel

end Problem

end Simplex
