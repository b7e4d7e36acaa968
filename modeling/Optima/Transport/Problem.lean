import Optima.Log
import Optima.Numeral
import Optima.Problem.Fault
import Optima.Scalar

namespace Optima

structure TransportProblem (F : Type) where
  supply : List F
  demand : List F
  /-- One row a source. -/
  costs : List (List F)
  supplyLabels : List String
  demandLabels : List String

namespace TransportProblem

variable {F : Type} [Scalar F]

instance : BEq (TransportProblem F) where
  beq p q := p.supply == q.supply && p.demand == q.demand && p.costs == q.costs &&
    p.supplyLabels == q.supplyLabels && p.demandLabels == q.demandLabels

def sourceCount (p : TransportProblem F) : Nat := p.supply.length

def destinationCount (p : TransportProblem F) : Nat := p.demand.length

def totalSupply (p : TransportProblem F) : F := Scalar.sum p.supply

def totalDemand (p : TransportProblem F) : F := Scalar.sum p.demand

def surplus (p : TransportProblem F) : F := p.totalSupply - p.totalDemand

def isBalanced (p : TransportProblem F) : Bool := Scalar.isNegligible p.surplus

def labelsFit (labels : List String) (n : Nat) : Bool := labels.isEmpty || labels.length == n

def fault? (p : TransportProblem F) : Option ProblemFault :=
  let m := p.sourceCount
  let n := p.destinationCount
  if p.supply.isEmpty || p.demand.isEmpty then some .noSourceOrDestination
  else if p.costs.length ≠ m then some (.costRowCount p.costs.length m)
  else
    match p.costs.zipIdx.find? fun (row, _) => row.length != n with
    | some (row, i) => some (.costRowDestinations i row.length n)
    | none =>
      if !labelsFit p.supplyLabels m then some (.supplyLabelCount p.supplyLabels.length m)
      else if !labelsFit p.demandLabels n then some (.demandLabelCount p.demandLabels.length n)
      else if (p.supply ++ p.demand).any fun x => !Scalar.isFinite x || decide (x < 0) then
        some .badAmount
      else if p.costs.flatten.any fun c => !Scalar.isFinite c then some .costNotFinite
      else none

def defaultLabels (letter : String) (n : Nat) : List String :=
  (List.range n).map fun i => s!"{letter}{i + 1}"

def labelled (p : TransportProblem F) : TransportProblem F :=
  { p with
    supplyLabels :=
      if p.supplyLabels.isEmpty then defaultLabels "S" p.sourceCount else p.supplyLabels
    demandLabels :=
      if p.demandLabels.isEmpty then defaultLabels "D" p.destinationCount else p.demandLabels }

def dummyLabel : String := "Dummy"

def withDummyDestination (p : TransportProblem F) (amount : F) : TransportProblem F :=
  { p with
    demand := p.demand ++ [amount]
    demandLabels := p.demandLabels ++ [dummyLabel]
    costs := p.costs.map (· ++ [0]) }

def withDummySource (p : TransportProblem F) (amount : F) : TransportProblem F :=
  { p with
    supply := p.supply ++ [amount]
    supplyLabels := p.supplyLabels ++ [dummyLabel]
    costs := p.costs ++ [List.replicate p.destinationCount 0] }

/-- The problem with a dummy that takes the excess supply or covers the excess demand. -/
def balance (p : TransportProblem F) : TransportProblem F :=
  if Scalar.tolerance < p.surplus then p.labelled.withDummyDestination p.surplus
  else if p.surplus < -Scalar.tolerance then p.labelled.withDummySource (-p.surplus)
  else p.labelled

def balanceLog [Numeral F] (p : TransportProblem F) : List LogEntry :=
  if Scalar.tolerance < p.surplus then
    [.debug s!"Adding dummy destination with demand {Numeral.text p.surplus}"]
  else if p.surplus < -Scalar.tolerance then
    [.debug s!"Adding dummy source with supply {Numeral.text (-p.surplus)}"]
  else []

end TransportProblem

end Optima
