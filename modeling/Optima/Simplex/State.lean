import Optima.Simplex.Tableau
import Optima.Run

namespace Optima.Simplex

inductive Status where
  | initial
  | running
  | optimal
  | infeasible
  | unbounded
  deriving DecidableEq

namespace Status

def isTerminal : Status → Bool
  | .initial | .running => false
  | .optimal | .infeasible | .unbounded => true

def name : Status → String
  | .initial => "Initial"
  | .running => "Running"
  | .optimal => "Optimal"
  | .infeasible => "Infeasible"
  | .unbounded => "Unbounded"

def ofName? : String → Option Status
  | "Initial" => some .initial
  | "Running" => some .running
  | "Optimal" => some .optimal
  | "Infeasible" => some .infeasible
  | "Unbounded" => some .unbounded
  | _ => none

end Status

inductive ColumnKind where
  | decision
  | slack
  /-- What exceeds a lower bound. -/
  | surplus
  /-- A penalized filler that gives its row a first basic column. -/
  | artificial
  deriving DecidableEq

namespace ColumnKind

def name : ColumnKind → String
  | .decision => "Decision"
  | .slack => "Slack"
  | .surplus => "Surplus"
  | .artificial => "Artificial"

def ofName? : String → Option ColumnKind
  | "Decision" => some .decision
  | "Slack" => some .slack
  | "Surplus" => some .surplus
  | "Artificial" => some .artificial
  | _ => none

end ColumnKind

structure State (F : Type) extends Tableau F (BigM F) where
  kinds : List ColumnKind
  status : Status
  explanation : String
  /-- Whether the program was set up with artificial columns in mind. -/
  usesBigM : Bool
  formulation : String
  iteration : Nat

namespace State

variable {F : Type} [Scalar F]

instance : BEq (State F) where
  beq s t := s.toTableau == t.toTableau && s.kinds == t.kinds && s.status == t.status &&
    s.explanation == t.explanation && s.usesBigM == t.usesBigM &&
    s.formulation == t.formulation && s.iteration == t.iteration

def columnName (s : State F) (column : Nat) : String := s.names.getD column ""

def isArtificial (s : State F) (column : Nat) : Bool := s.kinds.getD column .decision == .artificial

def basisNames (s : State F) : List String := s.basis.map s.columnName

/-- Whether an artificial column is basic with a positive value. -/
def usesArtificial (s : State F) : Bool :=
  (s.basis.zip s.rhs).any fun (j, b) => s.isArtificial j && decide (Scalar.tolerance < b)

def namedValues (s : State F) : List (String × F) :=
  ((List.range s.columnCount).filter (!s.isArtificial ·)).map fun j =>
    (s.columnName j, s.value j)

end State

end Optima.Simplex
