import Optima.BigM
import Optima.Json.Record
import Optima.Matrix

namespace Optima.Json

def ofFloat (x : Float) : Json :=
  match Decimal.dataText? x with
  | some literal => .number literal
  | none => .null

def floats (xs : List Float) : Json := .array (xs.map ofFloat)

def ofBigM (a : BigM Float) : Json :=
  .object [("constant", ofFloat a.constant), ("m_coefficient", ofFloat a.multiple)]

def bigM? (j : Json) : Option (BigM Float) := do
  let [constant, multiple] ← record? [⟨"constant", false⟩, ⟨"m_coefficient", false⟩] j | none
  return ⟨← required float? constant, ← required float? multiple⟩

def ofMatrix (a : Matrix Float) : Json :=
  .object [("data", .array (a.rows.map floats)), ("nr_rows", nat a.rowCount),
    ("nr_columns", nat a.columnCount)]

def matrix? (j : Json) : Option (Matrix Float) := do
  let [rows, m, n] ←
    record? [⟨"data", false⟩, ⟨"nr_rows", false⟩, ⟨"nr_columns", false⟩] j | none
  return ⟨← required (list? (list? float?)) rows, ← required nat? m, ← required nat? n⟩

end Optima.Json
