import Optima.BigM
import Optima.Problem.Fault

namespace Optima

inductive Relation where
  | equal
  | atLeast
  | atMost
  deriving DecidableEq

namespace Relation

def flip : Relation → Relation
  | .equal => .equal
  | .atLeast => .atMost
  | .atMost => .atLeast

def text : Relation → String
  | .equal => "="
  | .atLeast => ">="
  | .atMost => "<="

def ofText? : String → Option Relation
  | "=" => some .equal
  | ">=" => some .atLeast
  | "<=" => some .atMost
  | _ => none

end Relation

inductive Goal where
  | maximize
  | minimize
  deriving DecidableEq

namespace Goal

variable {F C : Type} [Scalar F] [Cost F C]

def ofMaximization (b : Bool) : Goal := if b then .maximize else .minimize

def isMaximization : Goal → Bool
  | .maximize => true
  | .minimize => false

def name : Goal → String
  | .maximize => "Maximize"
  | .minimize => "Minimize"

def ofName? : String → Option Goal
  | "Maximize" => some .maximize
  | "Minimize" => some .minimize
  | _ => none

def abbreviation : Goal → String
  | .maximize => "max"
  | .minimize => "min"

def improves (g : Goal) (c : C) : Bool :=
  Cost.signUpTo Scalar.tolerance c == (if g.isMaximization then .lt else .gt)

def prefers (g : Goal) (a b : C) : Bool :=
  Cost.compare a b == (if g.isMaximization then .lt else .gt)

/-- The cost that drives artificial variables out of the basis. -/
def artificialCost (g : Goal) : BigM F := BigM.penalty (if g.isMaximization then -1 else 1)

end Goal

structure LinearForm (F : Type) where
  coefficients : List F
  names : List String

structure Constraint (F : Type) extends LinearForm F where
  relation : Relation
  bound : F

structure LinearProgram (F : Type) where
  objective : LinearForm F
  constraints : List (Constraint F)
  goal : Goal

variable {F : Type} [Scalar F]

/-- The coefficient at the first position of a name, zero if the name does not occur. -/
def LinearForm.coefficient (f : LinearForm F) (name : String) : F :=
  match f.names.idxOf? name with
  | some i => f.coefficients.getD i 0
  | none => 0

/-- Whether the constraint says no more than that one variable is nonnegative. -/
def Constraint.isSignRestriction (c : Constraint F) : Bool :=
  c.relation = .atLeast && c.bound == 0 &&
    match c.coefficients.filter (!· == 0) with
    | [a] => decide (0 < a)
    | _ => false

namespace LinearProgram

def values (p : LinearProgram F) : List F :=
  p.objective.coefficients ++ p.constraints.flatMap fun c => c.coefficients ++ [c.bound]

def fault? (p : LinearProgram F) : Option ProblemFault :=
  let short? (c : Constraint F) (i : Nat) : Option ProblemFault :=
    if c.coefficients.length = c.names.length then none
    else some (.constraintLength i c.coefficients.length c.names.length)
  if p.objective.coefficients.length ≠ p.objective.names.length then
    some (.objectiveLength p.objective.coefficients.length p.objective.names.length)
  else
    match p.constraints.zipIdx.findSome? fun (c, i) => short? c i with
    | some fault => some fault
    | none => if p.values.all Scalar.isFinite then none else some .coefficientNotFinite

/-- The variables of the objective in order, then those that occur in constraints only. -/
def variableNames (p : LinearProgram F) : List String :=
  (p.constraints.flatMap (·.names)).foldl
    (fun names name => if names.contains name then names else names ++ [name]) p.objective.names

end LinearProgram

end Optima
