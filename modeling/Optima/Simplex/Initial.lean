import Optima.Simplex.Formulation

namespace Optima.Simplex

structure Row (F : Type) where
  coefficients : List F
  relation : Relation
  bound : F

/-- A column added for one row: its coefficient in that row, and zero in all others. -/
structure Auxiliary (F : Type) where
  name : String
  kind : ColumnKind
  cost : BigM F
  coefficient : F

variable {F : Type} [Scalar F]

def Row.ofConstraint (names : List String) (c : Constraint F) : Row F :=
  let coefficients := names.map c.coefficient
  if c.bound < 0 then ⟨coefficients.map (-·), c.relation.flip, -c.bound⟩
  else ⟨coefficients, c.relation, c.bound⟩

def rowsOf (p : LinearProgram F) : List (Row F) :=
  (p.constraints.filter (!·.isSignRestriction)).map (Row.ofConstraint p.variableNames)

/-- The columns added for a row, the last of them basic at first. -/
def auxiliaries (goal : Goal) (index : Nat) (row : Row F) : List (Auxiliary F) :=
  let artificial : Auxiliary F := ⟨s!"a{index + 1}", .artificial, goal.artificialCost, 1⟩
  match row.relation with
  | .atMost => [⟨s!"s{index + 1}", .slack, 0, 1⟩]
  | .atLeast => [⟨s!"s{index + 1}", .surplus, 0, -1⟩, artificial]
  | .equal => [artificial]

def auxiliaryEntries (added : List (List (Auxiliary F))) (index : Nat) : List F :=
  added.zipIdx.flatMap fun (columns, k) => columns.map fun a =>
    if k = index then a.coefficient else 0

def firstBasic (decisions : Nat) (added : List (List (Auxiliary F))) (index : Nat) : Nat :=
  decisions + (added.take (index + 1)).flatten.length - 1

def firstTableau (p : LinearProgram F) : Tableau F (BigM F) :=
  let names := p.variableNames
  let rows := rowsOf p
  let added := rows.zipIdx.map fun (row, i) => auxiliaries p.goal i row
  let cost := names.map (fun name => BigM.ofScalar (p.objective.coefficient name)) ++
    added.flatten.map (·.cost)
  let basis := (List.range rows.length).map (firstBasic names.length added)
  let body := rows.zipIdx.map fun (row, i) => row.coefficients ++ auxiliaryEntries added i
  Tableau.price
    { names := names ++ added.flatten.map (·.name)
      cost, basis
      basicCost := basis.map fun j => cost.getD j 0
      rhs := rows.map (·.bound)
      body := ⟨body, rows.length, cost.length⟩
      relativeCost := []
      objectiveValue := 0
      goal := p.goal }

/-- Whether the slack columns alone make a first basis for a maximization. -/
def isStandard (p : LinearProgram F) : Bool :=
  p.goal.isMaximization && (rowsOf p).all (·.relation = .atMost)

def firstState [Numeral F] (p : LinearProgram F) : State F :=
  let names := p.variableNames
  let added := (rowsOf p).zipIdx.flatMap fun (row, i) => auxiliaries p.goal i row
  let tableau := firstTableau p
  { toTableau := tableau
    kinds := names.map (fun _ => .decision) ++ added.map (·.kind)
    status := .initial
    explanation :=
      if isStandard p then "Standard Simplex Method"
      else "Big M Method (artificial variables included)"
    usesBigM := !isStandard p
    formulation := formulation p.goal tableau.names tableau.cost tableau.body tableau.rhs
    iteration := 0 }

def start [Numeral F] (p : LinearProgram F) : Except SolveError (State F) :=
  match p.fault? with
  | some fault => .error (.invalidProblem fault)
  | none => .ok (firstState p)

def startLog (s : State F) : List LogEntry :=
  let style := if s.usesBigM then "Big M" else "standard"
  [.debug (s!"Initialized {style} tableau with {s.rowCount} rows and " ++
      s!"{s.columnCount} columns"),
    .trace s!"Formulation:\n{s.formulation}"]

end Optima.Simplex
