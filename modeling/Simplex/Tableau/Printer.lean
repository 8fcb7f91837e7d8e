import Simplex.Tableau.Basic
import Simplex.Decimal.Rounded

/-!
# Writing tableaux

A row to a line, its entries to two places and apart by a space.
-/

namespace Simplex

/-- A number to two places. The sum with zero takes the sign off a negative zero. -/
def cellText (v : Float) : String := Decimal.fixedText 2 (v + 0)

def Tableau.rowText (row : List Float) : String := " ".intercalate (row.map cellText) ++ "\n"

def Tableau.text (t : Tableau Float) : String := String.join (t.rows.map rowText)

end Simplex
