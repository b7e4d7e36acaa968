import Optima.Simplex.State

namespace Optima.Simplex

structure Preview (F : Type) where
  column : Nat
  ratios : List (Option F)
  /-- The row that leaves the basis, and its ratio. -/
  leaving : Option (Nat × F)

/-- No coefficient of the entering column is positive. -/
def Preview.isUnbounded {F : Type} (p : Preview F) : Bool := p.ratios.all Option.isNone

inductive Move (F : Type) where
  | stopInfeasible
  | stopOptimal
  | stopUnbounded (column : Nat)
  | pivot (row column : Nat) (ratio : F)

variable {F C : Type} [Scalar F] [Cost F C]

def Tableau.preview? (rule : PivotRule) (t : Tableau F C) : Option (Preview F) :=
  (t.entering? rule).map fun column =>
    let ratios := t.ratios column
    ⟨column, ratios, smallestRatio? ratios⟩

namespace State

def nextPivot? (rule : PivotRule) (s : State F) : Option (Preview F) :=
  if s.status.isTerminal then none else s.preview? rule

def move (rule : PivotRule) (s : State F) : Except SolveError (Move F) :=
  match s.preview? rule with
  | none => .ok (if s.usesArtificial then .stopInfeasible else .stopOptimal)
  | some p =>
    if p.isUnbounded then .ok (.stopUnbounded p.column)
    else
      match p.leaving with
      | some (row, ratio) => .ok (.pivot row p.column ratio)
      | none => .error (.ratioTestFailed p.column)

variable [Numeral F]

def explain (s : State F) : Move F → String
  | .stopInfeasible => "Optimal tableau reached, but artificial variables remain in the basis " ++
      "with positive values. Problem is infeasible."
  | .stopOptimal =>
    let sign := if s.goal.isMaximization then ">=" else "<="
    s!"Optimal solution found (all Zj - Cj {sign} 0)."
  | .stopUnbounded column =>
    s!"Entering variable {s.columnName column} has no positive coefficients in its column. " ++
      "Problem is unbounded."
  | .pivot row column ratio =>
    let indicator := (s.relativeCost.getD column 0).text
    let leaving := s.columnName (s.basis.getD row 0)
    s!"Entering variable: {s.columnName column} (Indicator value: {indicator}). " ++
      s!"Leaving variable: {leaving} (Min ratio: {Numeral.fixed 2 ratio} at row {row + 1}). " ++
      s!"Pivot element: {Numeral.fixed 2 (s.body.get row column)}."

def after (s : State F) (m : Move F) : State F :=
  let explanation := s.explain m
  match m with
  | .stopInfeasible => { s with status := .infeasible, explanation }
  | .stopOptimal => { s with status := .optimal, explanation }
  | .stopUnbounded _ => { s with status := .unbounded, explanation }
  | .pivot row column _ =>
    { s with
      toTableau := s.toTableau.pivot row column
      status := .running
      explanation
      iteration := s.iteration + 1 }

/-- One step under a rule. A terminal state stays as it is. -/
def step (rule : PivotRule) (s : State F) : Except SolveError (State F) :=
  if s.status.isTerminal then .ok s
  else do return s.after (← s.move rule)

def moveLog (s : State F) (m : Move F) : List LogEntry :=
  match m with
  | .stopInfeasible | .stopOptimal =>
    [.debug s!"Terminal after {s.iteration} pivots: {(s.after m).status.name}"]
  | .stopUnbounded column =>
    [.debug s!"Column {column} ({s.columnName column}) shows unboundedness"]
  | .pivot row column ratio =>
    let leaving := s.columnName (s.basis.getD row 0)
    [.debug (s!"Pivot {s.iteration + 1}: {s.columnName column} enters, {leaving} leaves " ++
        s!"(row {row}, ratio {Numeral.text ratio})"),
      .trace s!"Tableau after pivot:\n{(s.after m).body.text}"]

def stepLog (rule : PivotRule) (s : State F) : List LogEntry :=
  if s.status.isTerminal then []
  else
    match s.move rule with
    | .ok m => s.moveLog m
    | .error _ => []

instance : Solver (State F) where
  isTerminal s := s.status.isTerminal
  step := step .largestCoefficient
  log := stepLog .largestCoefficient
  explanation := explanation

end State

end Optima.Simplex
