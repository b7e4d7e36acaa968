import Optima.Transport.Allocation
import Optima.Transport.ClosedLoop
import Optima.Transport.Duals

namespace Optima.Transport

variable {F : Type} [Scalar F]

def Improvement.blank (rowCount columnCount : Nat) : Improvement F :=
  { phase := .duals
    rowDuals := List.replicate rowCount none
    columnDuals := List.replicate columnCount none
    opportunityCosts := Matrix.zeros rowCount columnCount
    mostNegative := none
    entering := none
    exiting := none
    closedLoop := []
    theta := none }

namespace Improvement

def dualSum (r : Improvement F) (c : Cell) : F :=
  ((r.rowDuals.getD c.row none).getD 0) + ((r.columnDuals.getD c.column none).getD 0)

/-- The cells of a loop that lose what the others gain. -/
def losing (cells : List Cell) : List Cell :=
  (cells.zipIdx.filter fun (_, i) => i % 2 == 1).map (·.1)

def smallestLosing? (r : Improvement F) (p : Plan F) : Option (Cell × F) :=
  firstBest? (fun a b => decide (a.2 < b.2)) ((losing r.closedLoop).map fun c => (c, p.amount c))

/-- Moves an amount around a loop and drops what is left of shipments that it uses up. -/
def moved (cells : List Cell) (theta : F) (p : Plan F) : Plan F :=
  (cells.zipIdx.foldl (fun p (c, i) => p.shift c (if i % 2 = 0 then theta else -theta)) p).filter
    fun s => decide (Scalar.dropTolerance < s.amount)

end Improvement

namespace State

/-- What a unit through a cell costs beyond its dual values; zero for basic cells. -/
def opportunityCost (s : State F) (r : Improvement F) (c : Cell) : F :=
  if s.plan.isBasic c then 0 else s.unitCost c - r.dualSum c

def mostNegative? (s : State F) (r : Improvement F) : Option (Cell × F) :=
  let candidates := ((Cell.table s.rowCount s.columnCount).map fun c =>
    (c, s.opportunityCost r c)).filter fun (c, x) =>
      !s.plan.isBasic c && decide (x < -Scalar.tolerance)
  firstBest? (fun a b => decide (a.2 < b.2)) candidates

structure Outcome (F : Type) where
  state : State F
  round : Improvement F
  explanation : String
  log : List LogEntry

variable [Numeral F]

def oneDecimal (values : List (Option F)) : String :=
  ", ".intercalate ((values.filterMap id).map (Numeral.fixed 1))

def withDuals (s : State F) (r : Improvement F) : Except SolveError (Outcome F) := do
  let d ← s.allDuals
  let (u, v) := (oneDecimal d.rows, oneDecimal d.columns)
  let text := s!"Dual variables calculated: u = [{u}], v = [{v}]"
  return ⟨s, { r with rowDuals := d.rows, columnDuals := d.columns, phase := .opportunityCosts },
    text, [.trace text]⟩

def withOpportunityCosts (s : State F) (r : Improvement F) : Outcome F :=
  let costs := Matrix.ofFn s.rowCount s.columnCount fun i j => s.opportunityCost r ⟨i, j⟩
  let mostNegative := s.mostNegative? r
  let text := match mostNegative with
    | some (c, x) => "Opportunity costs calculated. Most negative: " ++
        s!"({c.row + 1}, {c.column + 1}) = {Numeral.fixed 2 x}. Solution is not optimal."
    | none => "All opportunity costs are non-negative. Current solution is optimal!"
  ⟨{ s with isOptimal := some mostNegative.isNone },
    { r with opportunityCosts := costs, mostNegative, phase := .entering },
    text, [.trace s!"Opportunity costs:\n{costs.text}"]⟩

def withEntering (s : State F) (r : Improvement F) : Outcome F :=
  match r.mostNegative with
  | none =>
    ⟨{ s with progress := .complete }, r, "MODI optimization complete - solution is optimal!",
      [.debug s!"MODI optimal with total cost {Numeral.text s.totalCost}"]⟩
  | some (c, x) =>
    ⟨s, { r with entering := some c, phase := .closedLoop },
      s!"Entering variable: x{c.text} with opportunity cost {Numeral.fixed 2 x}", []⟩

def loopText (cells : List Cell) : String :=
  " -> ".intercalate (cells.zipIdx.map fun (c, i) =>
    (if i % 2 = 0 then "+" else "-") ++ c.text)

def withLoop (s : State F) (r : Improvement F) : Except SolveError (Outcome F) :=
  match r.entering with
  | none => .error .incompleteInitialSolution
  | some c =>
    match s.closedLoop? c with
    | none => .error (.noClosedLoop c.row c.column)
    | some cells =>
      .ok ⟨s, { r with closedLoop := cells, phase := .theta },
        "Closed loop found: " ++ loopText cells, [.debug ("Closed loop: " ++ loopText cells)]⟩

def withTheta (s : State F) (r : Improvement F) : Outcome F :=
  match r.smallestLosing? s.plan with
  | some (c, x) =>
    ⟨s, { r with theta := some x, exiting := some c, phase := .reallocate },
      s!"theta = {Numeral.text x} (minimum value in negative cells). Exiting variable: x{c.text}",
      []⟩
  | none => ⟨s, { r with phase := .reallocate }, "Could not determine theta value.", []⟩

def withShift (s : State F) (r : Improvement F) : Outcome F :=
  let theta := r.theta.getD 0
  let plan := Improvement.moved r.closedLoop theta s.plan
  let totalCost := s.planCost plan
  let text := Numeral.text theta
  ⟨{ s with plan, totalCost, isOptimal := none }, Improvement.blank s.rowCount s.columnCount,
    s!"Allocations updated using theta = {text}. New total cost: {Numeral.fixed 2 totalCost}. " ++
      "Starting new MODI iteration to check optimality.",
    [.debug s!"Shifted {text} units, total cost now {Numeral.text totalCost}"]⟩

def work (s : State F) (r : Improvement F) : Except SolveError (Outcome F) :=
  match r.phase with
  | .duals => s.withDuals r
  | .opportunityCosts => .ok (s.withOpportunityCosts r)
  | .entering => .ok (s.withEntering r)
  | .closedLoop => s.withLoop r
  | .theta => .ok (s.withTheta r)
  | .reallocate => .ok (s.withShift r)

def improvementOutcome (s : State F) : Except SolveError (Outcome F) :=
  match s.improvement with
  | none => .error .incompleteInitialSolution
  | some r => { s with step := s.step + 1, progress := .running }.work r

def improve (s : State F) : Except SolveError (State F) :=
  if s.progress = .complete then .ok s
  else do
    let o ← s.improvementOutcome
    return { o.state with improvement := some o.round, explanation := o.explanation }

/-- Starts the improvement of a complete plan that ties all rows and columns together. -/
def startImprovement (s : State F) : Except SolveError (State F) :=
  let expected := s.rowCount + s.columnCount - 1
  let basic := s.plan.basicCells.length
  if s.progress ≠ .complete then .error .incompleteInitialSolution
  else if basic < expected then .error (.degenerateSolution basic expected)
  else .ok
    { s with
      method := .modi
      step := 0
      progress := .initial
      isOptimal := none
      improvement := some (Improvement.blank s.rowCount s.columnCount)
      explanation := "MODI (Modified Distribution) Method initialized. Starting with u1 = 0 " ++
        "and calculating dual variables." }

def startImprovementLog (s : State F) : List LogEntry :=
  match s.startImprovement with
  | .error _ => []
  | .ok _ => [.debug s!"Starting MODI from a solution with total cost {Numeral.text s.totalCost}"]

instance : Solver (State F) where
  isTerminal s := s.progress = .complete
  step s := match s.method with
    | .initial m => .ok (s.allocate m)
    | .modi => s.improve
  log s := match s.method with
    | .initial m => s.allocateLog m
    | .modi =>
      if s.progress = .complete then []
      else match s.improvementOutcome with
        | .ok o => o.log
        | .error _ => []
  explanation := explanation

end State

end Optima.Transport
