import Simplex.Scalar
import Simplex.Decimal.Parts
import Simplex.Decimal.Shortest
import Simplex.Decimal.Rounded
import Simplex.Decimal.Numeral
import Simplex.Text.Blank
import Simplex.Text.Cut
import Simplex.Problem.Basic
import Simplex.Fault
import Simplex.Problem.Terms
import Simplex.Problem.Reader
import Simplex.Problem.Printer
import Simplex.Tableau.Layout
import Simplex.Tableau.Basic
import Simplex.Tableau.Printer
import Simplex.Tableau.Pivot
import Simplex.Tableau.Checked
import Simplex.Tableau.Start
import Simplex.Tableau.Descent
import Simplex.Tableau.Handover
import Simplex.Solution
import Simplex.Report.Trace
import Simplex.Report.Log
import Simplex.Session
import Simplex.Solver
import Simplex.Proofs.Rational
import Simplex.Proofs.Choice
import Simplex.Proofs.System
import Simplex.Proofs.Assignment
import Simplex.Proofs.StandardForm
import Simplex.Proofs.Points
import Simplex.Proofs.Steps
import Simplex.Proofs.Outcome
import Simplex.Proofs.Handover
import Simplex.Proofs.Phases
import Simplex.Proofs.Meaning
import Simplex.Proofs.Bounds
import Simplex.Proofs.Basis
import Simplex.Proofs.StartingBasis
import Simplex.Proofs.Detection
import Simplex.Proofs.Readout
import Simplex.Proofs.Canonical
import Simplex.Proofs.RatioTest
import Simplex.Proofs.Tracking
import Simplex.Proofs.Feasibility
import Simplex.Proofs.Unbounded
import Simplex.Proofs.Multipliers
import Simplex.Proofs.ObjectiveValue
import Simplex.Proofs.Course
import Simplex.Proofs.Requests
import Simplex.Proofs.History
import Simplex.Proofs.Replay
import Simplex.Proofs.Limits
import Simplex.Proofs.ArtificialSum
import Simplex.Proofs.Termination
import Simplex.Proofs.Directions
import Simplex.Proofs.Access
import Simplex.Proofs.AccessBetweenPhases
import Simplex.Proofs.Filling
import Simplex.Proofs.Safety
import Simplex.Proofs.Doubles
import Simplex.Proofs.Rounding
import Simplex.Proofs.DecimalDoubles
import Simplex.Proofs.ShortestDecimals
import Simplex.Proofs.Rereading
import Simplex.Proofs.Evictions
import Simplex.Proofs.WrittenConstraints
import Simplex.Proofs.UnreadTerms
import Simplex.Proofs.NormalTexts
import Simplex.Proofs.DoubleOrder
import Simplex.Proofs.ImprovingColumns
import Simplex.Proofs.DoubleDifferences
import Simplex.Proofs.UnitColumns
import Simplex.Proofs.Rescaling
import Simplex.Proofs.Renaming
import Simplex.Proofs.Narration
import Simplex.Proofs.LogAndTrace
import Simplex.Proofs.Rebuilding
import Simplex.Proofs.Variables
import Simplex.Proofs.RoundedDecimals
import Simplex.Proofs.WrittenTableaux
