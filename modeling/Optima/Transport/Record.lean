import Optima.Json.Numbers
import Optima.Transport.State

namespace Optima

open Json

def Cell.toJson (c : Cell) : Json := .object [("row", nat c.row), ("column", nat c.column)]

def Cell.ofJson? (j : Json) : Option Cell := do
  let [row, column] ← record? [⟨"row", false⟩, ⟨"column", false⟩] j | none
  return ⟨← required nat? row, ← required nat? column⟩

namespace TransportProblem

def toJson (p : TransportProblem Float) : Json :=
  .object [("supply", floats p.supply), ("demand", floats p.demand),
    ("costs", .array (p.costs.map floats)), ("supply_labels", strings p.supplyLabels),
    ("demand_labels", strings p.demandLabels)]

def ofJson? (j : Json) : Option (TransportProblem Float) := do
  let [supply, demand, costs, supplyLabels, demandLabels] ←
    record? [⟨"supply", false⟩, ⟨"demand", false⟩, ⟨"costs", false⟩, ⟨"supply_labels", true⟩,
      ⟨"demand_labels", true⟩] j | none
  return {
    supply := ← required (list? float?) supply
    demand := ← required (list? float?) demand
    costs := ← required (list? (list? float?)) costs
    supplyLabels := ← withDefault [] (list? string?) supplyLabels
    demandLabels := ← withDefault [] (list? string?) demandLabels }

end TransportProblem

namespace Transport

def Shipment.toJson (s : Shipment Float) : Json :=
  .object [("cell", s.cell.toJson), ("value", ofFloat s.amount)]

def Shipment.ofJson? (j : Json) : Option (Shipment Float) := do
  let [cell, amount] ← record? [⟨"cell", false⟩, ⟨"value", false⟩] j | none
  return ⟨← required Cell.ofJson? cell, ← required float? amount⟩

def InitialMethod.name : InitialMethod → String
  | .northwestCorner => "NorthwestCorner"
  | .leastCost => "LeastCost"
  | .vogel => "Vogel"

def InitialMethod.ofName? : String → Option InitialMethod
  | "NorthwestCorner" => some .northwestCorner
  | "LeastCost" => some .leastCost
  | "Vogel" => some .vogel
  | _ => none

def Method.toJson : Method → Json
  | .modi => .string "Modi"
  | .initial m => .object [("Initial", .string m.name)]

def Method.ofJson? : Json → Option Method
  | .object [("Initial", m)] => ((choice? m).bind InitialMethod.ofName?).map .initial
  | j => if choice? j = some "Modi" then some .modi else none

def Phase.name : Phase → String
  | .duals => "DualVariables"
  | .opportunityCosts => "OpportunityCosts"
  | .entering => "EnteringCell"
  | .closedLoop => "ClosedLoop"
  | .theta => "Theta"
  | .reallocate => "Reallocate"

def Phase.ofName? : String → Option Phase
  | "DualVariables" => some .duals
  | "OpportunityCosts" => some .opportunityCosts
  | "EnteringCell" => some .entering
  | "ClosedLoop" => some .closedLoop
  | "Theta" => some .theta
  | "Reallocate" => some .reallocate
  | _ => none

namespace Improvement

def toJson (r : Improvement Float) : Json :=
  .object
    [("phase", .string r.phase.name),
      ("u", .array (r.rowDuals.map (optional ofFloat))),
      ("v", .array (r.columnDuals.map (optional ofFloat))),
      ("opportunity_costs", ofMatrix r.opportunityCosts),
      ("most_negative", optional (fun (c, x) => .array [c.toJson, ofFloat x]) r.mostNegative),
      ("entering", optional Cell.toJson r.entering),
      ("exiting", optional Cell.toJson r.exiting),
      ("closed_loop", .array (r.closedLoop.map Cell.toJson)),
      ("theta", optional ofFloat r.theta)]

def fields : List Field :=
  ["phase", "u", "v", "opportunity_costs", "most_negative", "entering", "exiting", "closed_loop",
    "theta"].map fun name => ⟨name, false⟩

def ofJson? (j : Json) : Option (Improvement Float) := do
  let [phase, u, v, costs, mostNegative, entering, exiting, closedLoop, theta] ←
    record? fields j | none
  return {
    phase := ← required (fun v => (choice? v).bind Phase.ofName?) phase
    rowDuals := ← required (list? (nullable? float?)) u
    columnDuals := ← required (list? (nullable? float?)) v
    opportunityCosts := ← required matrix? costs
    mostNegative := ← optionalField (pair? Cell.ofJson? float?) mostNegative
    entering := ← optionalField Cell.ofJson? entering
    exiting := ← optionalField Cell.ofJson? exiting
    closedLoop := ← required (list? Cell.ofJson?) closedLoop
    theta := ← optionalField float? theta }

end Improvement

namespace State

def toJson (s : State Float) : Json :=
  .object
    [("problem", s.problem.toJson),
      ("allocations", .array (s.plan.map Shipment.toJson)),
      ("total_cost", ofFloat s.totalCost),
      ("step", nat s.step),
      ("method", s.method.toJson),
      ("status", .string s.progress.name),
      ("explanation", .string s.explanation),
      ("remaining_supply", floats s.remainingSupply),
      ("remaining_demand", floats s.remainingDemand),
      ("is_optimal", optional .bool s.isOptimal),
      ("degenerate", .bool s.degenerate),
      ("modi", optional Improvement.toJson s.improvement)]

def fields : List Field :=
  ["problem", "allocations", "total_cost", "step", "method", "status", "explanation",
    "remaining_supply", "remaining_demand", "is_optimal", "degenerate", "modi"].map
    fun name => ⟨name, false⟩

def ofJson? (j : Json) : Option (State Float) := do
  let [problem, plan, totalCost, step, method, progress, explanation, remainingSupply,
    remainingDemand, isOptimal, degenerate, improvement] ← record? fields j | none
  return {
    problem := ← required TransportProblem.ofJson? problem
    plan := ← required (list? Shipment.ofJson?) plan
    totalCost := ← required float? totalCost
    step := ← required nat? step
    method := ← required Method.ofJson? method
    progress := ← required (fun v => (choice? v).bind Progress.ofName?) progress
    explanation := ← required string? explanation
    remainingSupply := ← required (list? float?) remainingSupply
    remainingDemand := ← required (list? float?) remainingDemand
    isOptimal := ← optionalField bool? isOptimal
    degenerate := ← required bool? degenerate
    improvement := ← optionalField Improvement.ofJson? improvement }

end State

end Transport

end Optima
