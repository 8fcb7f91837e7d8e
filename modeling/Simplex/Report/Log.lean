import Simplex.Tableau.Descent
import Simplex.Tableau.Handover
import Simplex.Tableau.Printer

/-!
# Logs

What a solve tells about its progress: the stages it goes through, the tableaux it builds and the
pivots it takes. A record is data; `Record.level` and `Record.text` say how it is written.
-/

namespace Simplex

inductive Stage where
  | parsingInput
  | building (phase : Phase)
  | iterating (phase : Phase)
  | done
  | failed
  deriving Repr, BEq, DecidableEq

inductive Level where
  | info
  | debug
  | trace
  deriving Repr, BEq, DecidableEq

inductive Record (α : Type) where
  | moved (source target : Stage)
  | parsed (names : List String) (constraints : Nat)
  | phaseBegins (phase : Phase)
  | building (phase : Phase) (layout : Layout)
  | built (phase : Phase) (tableau : Tableau α)
  | descending (phase : Phase) (rows columns : Nat)
  /-- The head of the progress table. -/
  | progressHead
  | pivot (row column : Nat)
  | progress (iteration : Nat) (objectiveValue : α)
  | pivoted (tableau : Tableau α)
  | limitReached
  | optimal (phase : Phase) (iterations : Nat)
  | infeasible
  | evicted (eviction : Eviction)
  | solveFailed (fault : Fault α)
  | optimumFound (objective : α)
  deriving DecidableEq

/-- The pivot of a step, its line in the progress table, and its tableau. -/
def Step.records [Scalar α] (step : Step α) (number : Nat) : List (Record α) :=
  [.pivot step.row step.column, .progress number step.result.objectiveValue, .pivoted step.result]

/-- What a descent from `start` tells, its success apart. -/
def Descent.records [Scalar α] (phase : Phase) (start : Tableau α) (d : Descent α) :
    List (Record α) :=
  [.descending phase start.rows.length start.layout.columns, .progressHead] ++
    d.steps.zipIdx.flatMap (fun (step, i) => step.records (i + 1)) ++
    match d.ending with
    | .error (.iterationLimit _ _) => [.limitReached]
    | _ => []

def Handover.records (h : Handover α) : List (Record α) :=
  h.evictions.map .evicted ++
    match h.outcome with
    | .error (.infeasible _) => [.infeasible]
    | _ => []

/-! ### Text -/

def Stage.text : Stage → String
  | parsingInput => "ParsingInput"
  | building phase => s!"BuildingPhase{phase.number}"
  | iterating phase => s!"IteratingPhase{phase.number}"
  | done => "Done"
  | failed => "Error"

def Level.text : Level → String
  | info => "INFO"
  | debug => "DEBUG"
  | trace => "TRACE"

/-- `text` at the right end of `width` columns. -/
def padLeft (width : Nat) (text : String) : String :=
  String.ofList (text.toList.leftpad width ' ')

/-- Names in quotation marks and brackets. -/
def namesText (names : List String) : String :=
  "[" ++ ", ".intercalate (names.map fun name => "\"" ++ name ++ "\"") ++ "]"

namespace Record

def level : Record α → Level
  | phaseBegins _ | descending _ _ _ | progressHead | progress _ _ | optimal _ _ | infeasible
  | optimumFound _ => .info
  | moved _ _ | parsed _ _ | building _ _ | pivot _ _ | limitReached | evicted _
  | solveFailed _ => .debug
  | built _ _ | pivoted _ => .trace

def text : Record Float → String
  | moved source target => s!"{source.text} -> {target.text}"
  | parsed names constraints =>
    s!"parsed problem with {names.length} variables and {constraints} constraints: " ++
      namesText names
  | phaseBegins phase => s!"PHASE {phase.number}"
  | building phase l =>
    s!"building {phase.text} tableau: {l.decision} decision, {l.slack} slack, " ++
      s!"{l.surplus} surplus, {l.artificial} artificial columns"
  | built phase t => s!"initial {phase.text} tableau:\n" ++ t.text
  | descending phase rows columns =>
    s!"solving {phase.text} tableau with {rows} rows and {columns} columns"
  | progressHead => "Iteration  |  Objective"
  | pivot row column => s!"pivot on row {row}, column {column}"
  | progress iteration value =>
    padLeft 9 (toString iteration) ++ "  |  " ++ Decimal.scientificText 8 value
  | pivoted t => "tableau:\n" ++ t.text
  | limitReached => "reached max iterations"
  | optimal phase iterations => s!"{phase.text} optimal after {iterations} iterations"
  | infeasible => "problem is infeasible"
  | evicted (.swapped row column) =>
    s!"driving artificial out of row {row} via column {column}"
  | evicted (.redundant row) => s!"row {row} is redundant"
  | solveFailed fault => s!"solve failed: {fault.message}"
  | optimumFound objective =>
    s!"found optimal point with objective value {Decimal.shortestText objective}"

end Record

end Simplex
