import Optima.Json.Numbers
import Optima.Simplex.State

namespace Optima.Simplex.State

open Json

def toJson (s : State Float) : Json :=
  .object
    [("cost", .array (s.cost.map ofBigM)),
      ("variables", strings s.names),
      ("kinds", strings (s.kinds.map (·.name))),
      ("basis", .array (s.basis.map nat)),
      ("basic_cost", .array (s.basicCost.map ofBigM)),
      ("rhs", floats s.rhs),
      ("tableau", ofMatrix s.body),
      ("relative_cost", .array (s.relativeCost.map ofBigM)),
      ("objective_value", ofBigM s.objectiveValue),
      ("objective", .string s.goal.name),
      ("status", .string s.status.name),
      ("explanation", .string s.explanation),
      ("uses_big_m", .bool s.usesBigM),
      ("formulation", .string s.formulation),
      ("iteration", nat s.iteration)]

def fields : List Field :=
  ["cost", "variables", "kinds", "basis", "basic_cost", "rhs", "tableau", "relative_cost",
    "objective_value", "objective", "status", "explanation", "uses_big_m", "formulation",
    "iteration"].map fun name => ⟨name, false⟩

def ofJson? (j : Json) : Option (State Float) := do
  let [cost, names, kinds, basis, basicCost, rhs, body, relativeCost, objectiveValue, goal,
    status, explanation, usesBigM, formulation, iteration] ← record? fields j | none
  return {
    names := ← required (list? string?) names
    cost := ← required (list? bigM?) cost
    basis := ← required (list? nat?) basis
    basicCost := ← required (list? bigM?) basicCost
    rhs := ← required (list? float?) rhs
    body := ← required matrix? body
    relativeCost := ← required (list? bigM?) relativeCost
    objectiveValue := ← required bigM? objectiveValue
    goal := ← required (fun v => (choice? v).bind Goal.ofName?) goal
    kinds := ← required (list? fun v => (choice? v).bind ColumnKind.ofName?) kinds
    status := ← required (fun v => (choice? v).bind Status.ofName?) status
    explanation := ← required string? explanation
    usesBigM := ← required bool? usesBigM
    formulation := ← required string? formulation
    iteration := ← required nat? iteration }

end Optima.Simplex.State
