namespace Optima

/-- An inconsistency in the description of a problem. Indices count from zero. -/
inductive ProblemFault where
  | objectiveLength (coefficients names : Nat)
  | constraintLength (index coefficients names : Nat)
  | coefficientNotFinite
  | noSourceOrDestination
  | costRowCount (rows sources : Nat)
  | costRowDestinations (index entries destinations : Nat)
  | supplyLabelCount (labels sources : Nat)
  | demandLabelCount (labels destinations : Nat)
  | badAmount
  | costNotFinite
  | emptyCosts
  | costRowLength (index entries expected : Nat)
  | rowLabelCount (labels rows : Nat)
  | columnLabelCount (labels columns : Nat)
  deriving DecidableEq

def ProblemFault.message : ProblemFault → String
  | .objectiveLength c v => s!"objective has {c} coefficients for {v} variables"
  | .constraintLength i c v => s!"constraint {i + 1} has {c} coefficients for {v} variables"
  | .coefficientNotFinite => "all coefficients must be finite"
  | .noSourceOrDestination => "at least one source and one destination are needed"
  | .costRowCount r s => s!"{r} cost rows for {s} sources"
  | .costRowDestinations i e d => s!"cost row {i + 1} has {e} entries for {d} destinations"
  | .supplyLabelCount l s => s!"{l} supply labels for {s} sources"
  | .demandLabelCount l d => s!"{l} demand labels for {d} destinations"
  | .badAmount => "supply and demand must be finite and nonnegative"
  | .costNotFinite => "all costs must be finite"
  | .emptyCosts => "the cost matrix is empty"
  | .costRowLength i e n => s!"cost row {i + 1} has {e} entries, expected {n}"
  | .rowLabelCount l r => s!"{l} row labels for {r} rows"
  | .columnLabelCount l c => s!"{l} column labels for {c} columns"

inductive SolveError where
  | invalidProblem (fault : ProblemFault)
  | incompleteInitialSolution
  | degenerateSolution (basicCells expected : Nat)
  | unresolvedDuals (rows columns : List Nat)
  | noClosedLoop (row column : Nat)
  | ratioTestFailed (column : Nat)
  deriving DecidableEq

namespace SolveError

def listText (ns : List Nat) : String := "[" ++ ", ".intercalate (ns.map toString) ++ "]"

def message : SolveError → String
  | .invalidProblem fault => "Invalid problem: " ++ fault.message
  | .incompleteInitialSolution =>
    "The MODI method requires a complete initial basic feasible solution"
  | .degenerateSolution basic expected =>
    s!"Degenerate solution: {basic} basic cells where {expected} are needed to compute the dual " ++
      "variables"
  | .unresolvedDuals rows columns =>
    "Could not determine dual variables for rows " ++ listText rows ++ " and columns " ++
      listText columns ++ "; the basic cells don't span the problem"
  | .noClosedLoop r c =>
    s!"Could not find a closed loop through cell ({r + 1}, {c + 1}); the problem may be degenerate"
  | .ratioTestFailed c =>
    s!"Minimum ratio test failed for entering column {c}: no nonnegative ratio"

end SolveError

end Optima
