import Simplex.Decimal.Shortest

/-!
# Faults

Why a solve fails. A `SyntaxFault` is a flaw of one text; a `Fault` is the end of a solve. Their
wording is in `SyntaxFault.message` and `Fault.message`.
-/

namespace Simplex

inductive Phase where
  | one
  | two
  deriving Repr, BEq, DecidableEq

def Phase.number : Phase → Nat
  | .one => 1
  | .two => 2

def Phase.text (p : Phase) : String := s!"phase {p.number}"

/-- Why a text is no expression or no constraint. -/
inductive SyntaxFault where
  | noTerms
  | noTermIn (text : String)
  /-- The reader stopped before `rest`, `offset` bytes into `text`. -/
  | unexpected (rest : String) (offset : Nat) (text : String)
  | noOperator (text : String)
  | emptyLeftSide (text : String)
  | rightSideNotFinite (right : String)
  /-- A flaw in the caller's words. -/
  | described (message : String)
  deriving Repr, BEq, DecidableEq

def SyntaxFault.message : SyntaxFault → String
  | .noTerms => "expression has no terms"
  | .noTermIn text => s!"no term found in '{text}'"
  | .unexpected rest offset text => s!"unexpected '{rest}' at offset {offset} in '{text}'"
  | .noOperator text => s!"no comparison operator in '{text}'"
  | .emptyLeftSide text => s!"empty left-hand side in '{text}'"
  | .rightSideNotFinite right => s!"right-hand side '{right}' is not a finite number"
  | .described message => message

/-- Why a solve ends without a solution. -/
inductive Fault (α : Type) where
  /-- A text cannot be read: the constraint at a position counted from 1, or the objective. -/
  | unreadable (position : Option Nat) (cause : SyntaxFault)
  | iterationLimit (phase : Phase) (limit : Nat)
  /-- The tableau is not optimal, yet no column improves it. -/
  | noImprovingColumn (phase : Phase)
  /-- No row bounds the entering column. -/
  | noPivotRow (phase : Phase) (column : Nat)
  | infeasible (artificialSum : α)
  | noConstraints
  /-- Rows of `columns` entries do not fit a layout of `expected` columns, or there is none. -/
  | misshapen (rows columns expected : Nat)
  | outside (row column : Nat)
  /-- The columns handed out are not those of the layout. -/
  | miscounted
  deriving Repr, BEq, DecidableEq

inductive FaultKind where
  | syntactic
  | iterationLimit
  | noImprovingColumn
  | noPivotRow
  | infeasible
  | structural
  /-- A fault of the solver itself. -/
  | internal
  deriving Repr, BEq, DecidableEq

namespace Fault

def kind : Fault α → FaultKind
  | unreadable _ _ => .syntactic
  | iterationLimit _ _ => .iterationLimit
  | noImprovingColumn _ => .noImprovingColumn
  | noPivotRow _ _ => .noPivotRow
  | infeasible _ => .infeasible
  | noConstraints | misshapen _ _ _ => .structural
  | outside _ _ | miscounted => .internal

def position : Fault α → Option Nat
  | unreadable position _ => position
  | _ => none

/-- The wording of a fault of a solve on doubles. Its first words for a missing column or row name
what the fault usually means, not what it always means. -/
def message : Fault Float → String
  | unreadable (some position) cause =>
    s!"invalid constraint at position {position}: {cause.message}"
  | unreadable none cause => s!"invalid objective: {cause.message}"
  | iterationLimit phase limit =>
    s!"iteration limit of {limit} reached in {phase.text}, possible unbounded problem"
  | noImprovingColumn phase => s!"unbounded solution ({phase.text} found no improving column)"
  | noPivotRow phase column =>
    s!"no feasible solution ({phase.text} found no pivot row for column {column})"
  | infeasible artificialSum =>
    s!"no feasible solution, phase 1 ended with artificial sum {Decimal.shortestText artificialSum}"
  | noConstraints => "at least one constraint is required to build a tableau"
  | misshapen rows columns expected =>
    s!"a {rows}x{columns} matrix does not fit a layout of {expected} columns"
  | outside row column => s!"no entry at row {row}, column {column}"
  | miscounted => "the columns of a tableau do not match its layout"

end Fault

end Simplex
