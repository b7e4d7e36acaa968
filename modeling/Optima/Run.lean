import Optima.Log
import Optima.Problem.Fault

namespace Optima

/-- A solver as a machine over its states. What a step writes to the log is kept apart from what it
computes. -/
class Solver (σ : Type) where
  isTerminal : σ → Bool
  step : σ → Except SolveError σ
  log : σ → List LogEntry
  explanation : σ → String

structure Run (σ : Type) where
  first : σ
  later : List σ

inductive Progress where
  | initial
  | running
  | complete
  deriving DecidableEq

def Progress.name : Progress → String
  | .initial => "Initial"
  | .running => "Running"
  | .complete => "Complete"

def Progress.ofName? : String → Option Progress
  | "Initial" => some .initial
  | "Running" => some .running
  | "Complete" => some .complete
  | _ => none

variable {σ : Type}

namespace Run

def states (r : Run σ) : List σ := r.first :: r.later

def final (r : Run σ) : σ := (r.later.getLast?).getD r.first

def stepCount (r : Run σ) : Nat := r.later.length

variable [Solver σ]

def converged (r : Run σ) : Bool := Solver.isTerminal r.final

/-- The terminal state, or the number of steps taken without reaching one. -/
def outcome (r : Run σ) : Except Nat σ :=
  if r.converged then .ok r.final else .error r.stepCount

def explain (r : Run σ) : String :=
  "\n".intercalate ((r.states.zipIdx).map fun (s, i) => s!"[{i}] {Solver.explanation s}")

end Run

namespace Solver

variable [Solver σ]

/-- The states that at most `n` steps lead to, up to the first terminal one. -/
def advance : Nat → σ → Except SolveError (List σ)
  | 0, _ => .ok []
  | n + 1, s =>
    if isTerminal s then .ok []
    else do
      let next ← step s
      let rest ← advance n next
      return next :: rest

/-- Runs until a terminal state, or until the run has the given number of states. -/
def solve (maxStates : Nat) (s : σ) : Except SolveError (Run σ) := do
  return ⟨s, ← advance (maxStates - 1) s⟩

def defaultMaxStates : Nat := 100

def advanceLog : Nat → σ → List LogEntry
  | 0, _ => []
  | n + 1, s =>
    if isTerminal s then []
    else
      match step s with
      | .error _ => log s
      | .ok next => log s ++ advanceLog n next

def solveLog (maxStates : Nat) (s : σ) : List LogEntry :=
  let steps := advanceLog (maxStates - 1) s
  match solve maxStates s with
  | .error _ => steps
  | .ok r =>
    if r.converged then steps
    else steps ++ [⟨.warn,
      s!"Stopped after {r.stepCount} steps without reaching a terminal state"⟩]

end Solver

end Optima
