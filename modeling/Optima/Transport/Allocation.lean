import Optima.Transport.Selection

namespace Optima.Transport

inductive Filling (F : Type) where
  /-- Nothing was left to ship. -/
  | finished
  /-- No cell can receive a shipment. -/
  | stuck
  | ship (cell : Cell) (reason : Reason F) (amount : F)

namespace State

variable {F : Type} [Scalar F]

def capacity (s : State F) (c : Cell) : F :=
  Scalar.least (s.remainingSupply.getD c.row 0) (s.remainingDemand.getD c.column 0)

def filling (m : InitialMethod) (s : State F) : Filling F :=
  if s.isFilled then .finished
  else
    match s.select? m with
    | some (c, reason) => .ship c reason (s.capacity c)
    | none => .stuck

def ship (s : State F) (c : Cell) (x : F) : State F :=
  let plan := s.plan.add c x
  { s with
    plan
    totalCost := s.planCost plan
    remainingSupply := s.remainingSupply.modify c.row (· - x)
    remainingDemand := s.remainingDemand.modify c.column (· - x) }

variable [Numeral F]

def shipText (s : State F) (c : Cell) (reason : String) (x : F) : String :=
  let source := s.sourceLabel c.row
  let destination := s.destinationLabel c.column
  let supply := Numeral.text (s.remainingSupply.getD c.row 0)
  let demand := Numeral.text (s.remainingDemand.getD c.column 0)
  s!"Step {s.step}: {reason} Allocated {Numeral.text x} units to cell " ++
    s!"({source}, {destination}). Remaining supply of {source}: {supply}, " ++
    s!"remaining demand of {destination}: {demand}."

def afterFilling (m : InitialMethod) (s : State F) : Filling F → State F
  | .finished =>
    { s with
      progress := .complete
      degenerate := s.isDegenerate
      explanation := s!"{m.text} completed. All supply and demand satisfied." }
  | .stuck =>
    { s with
      step := s.step + 1
      progress := .complete
      degenerate := s.isDegenerate
      explanation := "No more allocations possible." }
  | .ship c reason x =>
    let next := { s.ship c x with step := s.step + 1 }
    let complete := next.isFilled
    { next with
      explanation := next.shipText c (s.reasonText c reason) x
      progress := if complete then .complete else .running
      degenerate := if complete then next.isDegenerate else s.degenerate }

/-- One step with a method of choice, whichever method the state names. -/
def allocate (m : InitialMethod) (s : State F) : State F :=
  if s.progress = .complete then s else s.afterFilling m (s.filling m)

def allocateLog (m : InitialMethod) (s : State F) : List LogEntry :=
  if s.progress = .complete then []
  else
    match s.filling m with
    | .finished | .stuck => []
    | .ship c reason x =>
      let next := s.afterFilling m (.ship c reason x)
      .debug s!"{m.text} step {next.step}: allocated {Numeral.text x} to {c.logText}" ::
        if next.progress = .complete && next.degenerate then
          [.debug s!"Initial solution is degenerate: {next.plan.basicCells.length} basic cells"]
        else []

end State

end Optima.Transport
