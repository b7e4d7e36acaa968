import Optima.Assignment.State
import Optima.Json.Numbers
import Optima.Transport.Record

namespace Optima

open Json

namespace AssignmentProblem

def toJson (p : AssignmentProblem Float) : Json :=
  .object [("costs", .array (p.costs.map floats)), ("row_labels", strings p.rowLabels),
    ("column_labels", strings p.columnLabels), ("is_maximization", .bool p.isMaximization)]

def ofJson? (j : Json) : Option (AssignmentProblem Float) := do
  let [costs, rowLabels, columnLabels, isMaximization] ←
    record? [⟨"costs", false⟩, ⟨"row_labels", true⟩, ⟨"column_labels", true⟩,
      ⟨"is_maximization", true⟩] j | none
  return {
    costs := ← required (list? (list? float?)) costs
    rowLabels := ← withDefault [] (list? string?) rowLabels
    columnLabels := ← withDefault [] (list? string?) columnLabels
    isMaximization := ← withDefault false bool? isMaximization }

end AssignmentProblem

namespace Assignment

def Mark.name : Mark → String
  | .starred => "Starred"
  | .primed => "Primed"

def Mark.ofName? : String → Option Mark
  | "Starred" => some .starred
  | "Primed" => some .primed
  | _ => none

namespace State

def toJson (s : State Float) : Json :=
  .object
    [("problem", s.problem.toJson),
      ("cost_matrix", ofMatrix s.reduced),
      ("original", ofMatrix s.costs),
      ("assignments", .array (s.assignments.map Cell.toJson)),
      ("total_cost", ofFloat s.totalCost),
      ("step", nat s.step),
      ("status", .string s.progress.name),
      ("explanation", .string s.explanation),
      ("covered_rows", .array (s.coveredRows.map .bool)),
      ("covered_columns", .array (s.coveredColumns.map .bool)),
      ("marks", .array (s.marks.map fun row =>
        .array (row.map (optional fun mark => .string mark.name)))),
      ("min_uncovered", optional ofFloat s.minUncovered),
      ("phase", .string s.phase.name)]

def fields : List Field :=
  ["problem", "cost_matrix", "original", "assignments", "total_cost", "step", "status",
    "explanation", "covered_rows", "covered_columns", "marks", "min_uncovered", "phase"].map
    fun name => ⟨name, false⟩

def ofJson? (j : Json) : Option (State Float) := do
  let [problem, reduced, costs, assignments, totalCost, step, progress, explanation, coveredRows,
    coveredColumns, marks, minUncovered, phase] ← record? fields j | none
  return {
    problem := ← required AssignmentProblem.ofJson? problem
    reduced := ← required matrix? reduced
    costs := ← required matrix? costs
    assignments := ← required (list? Cell.ofJson?) assignments
    totalCost := ← required float? totalCost
    step := ← required nat? step
    progress := ← required (fun v => (choice? v).bind Progress.ofName?) progress
    explanation := ← required string? explanation
    coveredRows := ← required (list? bool?) coveredRows
    coveredColumns := ← required (list? bool?) coveredColumns
    marks := ← required (list? (list? (nullable? fun v => (choice? v).bind Mark.ofName?))) marks
    minUncovered := ← optionalField float? minUncovered
    phase := ← required (fun v => (choice? v).bind Phase.ofName?) phase }

end State

end Assignment

end Optima
