import Optima.Simplex.Step

namespace Optima.Simplex

structure Solution (F : Type) where
  objectiveValue : BigM F
  values : List (String × F)

inductive Report (F : Type) where
  | optimal (solution : Solution F)
  | infeasible (objectiveValue : BigM F)
  | unbounded
  | notTerminated
  | iterationLimit (iterations : Nat)

variable {F : Type} [Scalar F]

def Solution.value? (s : Solution F) (name : String) : Option F :=
  (s.values.find? (·.1 == name)).map (·.2)

/-- Reads a state. That an optimal basis is free of artificial values is checked once more. -/
def State.report (s : State F) : Report F :=
  match s.status with
  | .optimal =>
    if s.usesArtificial then .infeasible s.objectiveValue
    else .optimal ⟨s.objectiveValue, s.namedValues⟩
  | .infeasible => .infeasible s.objectiveValue
  | .unbounded => .unbounded
  | .initial | .running => .notTerminated

variable [Numeral F]

def runReport (r : Run (State F)) : Report F :=
  match r.outcome with
  | .ok s => s.report
  | .error steps => .iterationLimit steps

def Solution.text (s : Solution F) : String :=
  s!"Optimal solution found.\nObjective value (Z) = {s.objectiveValue.text}\nVariable values:\n" ++
    String.join (s.values.map fun (name, x) => s!"  {name} = {Numeral.fixed 4 x}\n")

def Report.text : Report F → String
  | .optimal solution => solution.text
  | .infeasible value => "Problem is Infeasible. Artificial variable(s) remain in the optimal " ++
      s!"basis with positive values. Z = {value.text}"
  | .unbounded => "Problem is Unbounded. The objective function can be decreased (for min) or " ++
      "increased (for max) indefinitely."
  | .notTerminated => "Solver did not reach a terminal state."
  | .iterationLimit n => s!"Stopped after {n} iterations without reaching a terminal state."

def explainRun (r : Run (State F)) : String :=
  "\n".intercalate (r.states.map fun s => s!"[{s.iteration}] {s.explanation}")

end Optima.Simplex
