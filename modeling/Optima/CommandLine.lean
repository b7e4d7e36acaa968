import Optima.Arguments
import Optima.Assignment.Step
import Optima.Json.Writer
import Optima.Problem.File
import Optima.Simplex.Initial
import Optima.Simplex.Record
import Optima.Simplex.Report
import Optima.Transport.Improvement

namespace Optima

inductive CommandError where
  | importing (error : ImportError)
  | solving (error : SolveError)
  | stopped (steps : Nat)

def CommandError.message : CommandError → String
  | .importing error => error.message
  | .solving error => error.message
  | .stopped steps => s!"Stopped after {steps} steps without reaching a terminal state."

/-- Printing lines; what was printed before an error stays. -/
abbrev Print := ExceptT CommandError (StateM String)

namespace Command

def line (s : String) : Print Unit := modify (· ++ s ++ "\n")

def solved {α : Type} : Except SolveError α → Print α
  | .ok a => pure a
  | .error e => throw (.solving e)

def details {σ : Type} (c : Command) (r : Run σ) (explain : Run σ → String)
    (toJson : σ → Json) : Print Unit := do
  if c.showSteps then line (explain r)
  if c.showState then line ((toJson r.final).pretty 0)

def finished {σ : Type} [Solver σ] (r : Run σ) : Print σ :=
  match r.outcome with
  | .ok s => pure s
  | .error steps => throw (.stopped steps)

def load (P : Type) [FileFormat P] (path : List UInt8) (content : Except FileFault ByteArray) :
    Print P :=
  match FileFormat.ofFile path content with
  | .ok p => pure p
  | .error e => throw (.importing e)

def runLinear (c : Command) (p : LinearProgram Float) : Print Unit := do
  let first ← solved (Simplex.start p)
  line (first.explanation ++ "\n" ++ first.formulation ++ "\n")
  let r ← solved (Solver.solve c.stepLimit first)
  c.details r Simplex.explainRun Simplex.State.toJson
  line (Simplex.runReport r).text

def runMethod (c : Command) (first : Transport.State Float) : Print (Transport.State Float) := do
  let r ← solved (Solver.solve c.stepLimit first)
  c.details r Run.explain Transport.State.toJson
  let last ← finished r
  line s!"{last.method.text}: total cost {Numeral.text last.totalCost}"
  return last

def runTransportation (c : Command) (method : Transport.InitialMethod) (optimize : Bool)
    (p : TransportProblem Float) : Print Unit := do
  let filled ← c.runMethod (← solved (Transport.start p method))
  if filled.degenerate then line "The initial solution is degenerate."
  let last ← if optimize then c.runMethod (← solved filled.startImprovement) else pure filled
  for s in last.plan do
    let source := last.sourceLabel s.cell.row
    let destination := last.destinationLabel s.cell.column
    line s!"  {source} -> {destination}: {Numeral.text s.amount}"

def runAssignment (c : Command) (p : AssignmentProblem Float) : Print Unit := do
  let r ← solved (Solver.solve c.stepLimit (← solved (Assignment.start p)))
  c.details r Run.explain Assignment.State.toJson
  let last ← finished r
  line s!"Total cost: {Numeral.text last.totalCost}"
  for cell in last.assignments do
    let row := last.problem.rowLabels.getD cell.row ""
    let column := last.problem.columnLabels.getD cell.column ""
    line s!"  {row} -> {column}"

def print (c : Command) (path : List UInt8) (content : Except FileFault ByteArray) :
    Print Unit :=
  match c.task with
  | .linear => do c.runLinear (← load _ path content)
  | .transportation method optimize => do
    c.runTransportation method optimize (← load _ path content)
  | .assignment => do c.runAssignment (← load _ path content)

def run (c : Command) (path : List UInt8) (content : Except FileFault ByteArray) :
    String × Option CommandError :=
  match ((c.print path content).run).run "" with
  | (.ok _, text) => (text, none)
  | (.error e, text) => (text, some e)

end Command

end Optima
