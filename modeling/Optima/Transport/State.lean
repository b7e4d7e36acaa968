import Optima.Matrix
import Optima.Run
import Optima.Transport.Plan
import Optima.Transport.Problem

namespace Optima.Transport

inductive InitialMethod where
  | northwestCorner
  | leastCost
  | vogel
  deriving DecidableEq

inductive Method where
  | initial (m : InitialMethod)
  | modi
  deriving DecidableEq

def InitialMethod.text : InitialMethod → String
  | .northwestCorner => "Northwest Corner Method"
  | .leastCost => "Least Cost Method"
  | .vogel => "Vogel's Approximation Method"

def Method.text : Method → String
  | .initial m => m.text
  | .modi => "MODI Method"

inductive Phase where
  | duals
  | opportunityCosts
  | entering
  | closedLoop
  | theta
  | reallocate
  deriving DecidableEq

structure Improvement (F : Type) where
  phase : Phase
  rowDuals : List (Option F)
  columnDuals : List (Option F)
  /-- Zero for cells of the basis. -/
  opportunityCosts : Matrix F
  mostNegative : Option (Cell × F)
  entering : Option Cell
  exiting : Option Cell
  /-- The cells that gain and lose in turn, starting with the one that enters. -/
  closedLoop : List Cell
  theta : Option F
  deriving BEq

structure State (F : Type) where
  problem : TransportProblem F
  plan : Plan F
  totalCost : F
  step : Nat
  method : Method
  progress : Progress
  explanation : String
  remainingSupply : List F
  remainingDemand : List F
  /-- Known once the opportunity costs are. -/
  isOptimal : Option Bool
  degenerate : Bool
  improvement : Option (Improvement F)

namespace State

variable {F : Type} [Scalar F]

instance : BEq (State F) where
  beq s t := s.problem == t.problem && s.plan == t.plan && s.totalCost == t.totalCost &&
    s.step == t.step && s.method == t.method && s.progress == t.progress &&
    s.explanation == t.explanation && s.remainingSupply == t.remainingSupply &&
    s.remainingDemand == t.remainingDemand && s.isOptimal == t.isOptimal &&
    s.degenerate == t.degenerate && s.improvement == t.improvement

def rowCount (s : State F) : Nat := s.problem.sourceCount

def columnCount (s : State F) : Nat := s.problem.destinationCount

def unitCost (s : State F) (c : Cell) : F := (s.problem.costs.getD c.row []).getD c.column 0

def planCost (s : State F) (p : Plan F) : F := p.cost s.unitCost

def sourceLabel (s : State F) (row : Nat) : String := s.problem.supplyLabels.getD row ""

def destinationLabel (s : State F) (column : Nat) : String :=
  s.problem.demandLabels.getD column ""

/-- Whether nothing more than a negligible amount is left anywhere. -/
def isFilled (s : State F) : Bool :=
  (s.remainingSupply ++ s.remainingDemand).all fun x => decide (x ≤ Scalar.tolerance)

def isSourceAvailable (s : State F) (row : Nat) : Bool :=
  Scalar.tolerance < s.remainingSupply.getD row 0

def isDestinationAvailable (s : State F) (column : Nat) : Bool :=
  Scalar.tolerance < s.remainingDemand.getD column 0

def availableSources (s : State F) : List Nat :=
  (List.range s.rowCount).filter s.isSourceAvailable

def availableDestinations (s : State F) : List Nat :=
  (List.range s.columnCount).filter s.isDestinationAvailable

def availableCells (s : State F) : List Cell :=
  s.availableSources.flatMap fun i => s.availableDestinations.map fun j => ⟨i, j⟩

/-- Whether too few cells are basic to tie all rows and columns together. -/
def isDegenerate (s : State F) : Bool :=
  s.plan.basicCells.length + 1 < s.rowCount + s.columnCount

end State

variable {F : Type} [Scalar F]

def firstState (p : TransportProblem F) (method : InitialMethod) : State F :=
  { problem := p
    plan := []
    totalCost := 0
    step := 0
    method := .initial method
    progress := .initial
    explanation := s!"Starting {method.text} to find initial basic feasible solution."
    remainingSupply := p.supply
    remainingDemand := p.demand
    isOptimal := none
    degenerate := false
    improvement := none }

def start (p : TransportProblem F) (method : InitialMethod) : Except SolveError (State F) :=
  match p.fault? with
  | some fault => .error (.invalidProblem fault)
  | none => .ok (firstState p.balance method)

def startLog [Numeral F] (p : TransportProblem F) (method : InitialMethod) : List LogEntry :=
  match p.fault? with
  | some _ => []
  | none =>
    let b := p.balance
    p.balanceLog ++
      [.debug (s!"Initialized {b.sourceCount}x{b.destinationCount} transportation problem for " ++
        s!"the {method.text}")]

end Optima.Transport
