import Optima.Linear.Expression
import Optima.Linear.Program
import Optima.Log
import Optima.Text.Quoted

namespace Optima

inductive LineRole where
  | objective
  | constraint
  deriving DecidableEq

inductive LineFault where
  | objectiveShape
  | objectiveGoal
  | noRelation
  | badRightSide (text : String)
  | expression (fault : Linear.ExpressionFault)
  deriving DecidableEq

/-- Why a text holds no problem. Lines count from one. -/
inductive ParseError where
  | noTextFormat
  | noLines
  | noConstraints
  | badLine (role : LineRole) (fault : LineFault) (number : Nat) (line : String)
  deriving DecidableEq

def LineFault.message : LineFault → String
  | .objectiveShape => "Should be 'min/max z = expression'"
  | .objectiveGoal => "Should start with 'min' or 'max'"
  | .noRelation => "No constraint operator found, expected one of <=, >=, ="
  | .badRightSide text => "Right side \"" ++ text ++ "\" must be a number"
  | .expression fault => fault.message

def LineRole.message : LineRole → String
  | .objective => "Invalid objective function"
  | .constraint => "Invalid constraint"

namespace ParseError

def line? : ParseError → Option Nat
  | .badLine _ _ number _ => some number
  | _ => none

def faultMessage (fault : LineFault) (number : Nat) (line : String) : String :=
  fault.message ++ s!"\n\tCaused at line\t{number}:\t{line}"

def message : ParseError → String
  | .noTextFormat => "ParseError: No textual format available for this problem type"
  | .noLines => "ParseError: Problem definition is empty"
  | .noConstraints => "ParseError: Need at least an objective function and one constraint"
  | .badLine role fault number line =>
    "ParseError: " ++ role.message ++ "\n" ++ faultMessage fault number line

def causes : ParseError → List String
  | .badLine _ fault number line => ["ParseError: " ++ faultMessage fault number line]
  | _ => []

end ParseError

namespace Linear

variable {F : Type} [Scalar F] [Numeral F]

def objective (cs : List Char) : Except LineFault (Goal × List (String × F)) := do
  let some (head, body) := Text.cutAt? '=' cs | throw .objectiveShape
  let words := (Text.words head).map Text.lower
  let some first := words.head? | throw .objectiveGoal
  let goal ←
    if first = "max" ∨ first = "maximize" then pure Goal.maximize
    else if first = "min" ∨ first = "minimize" then pure Goal.minimize
    else throw .objectiveGoal
  if words.drop 1 ≠ ["z"] then throw .objectiveShape
  let found ← (expression body).mapError .expression
  return (goal, found)

def isRelationChar (c : Char) : Bool := c == '<' || c == '>' || c == '='

def relation? : List Char → Option (Relation × List Char)
  | [] => none
  | c :: cs =>
    let rest := if cs.head? = some '=' then cs.drop 1 else cs
    match c with
    | '<' => some (.atMost, rest)
    | '>' => some (.atLeast, rest)
    | '=' => some (.equal, rest)
    | _ => none

structure Row (F : Type) where
  terms : List (String × F)
  relation : Relation
  bound : F

def constraint (cs : List Char) : Except LineFault (Row F) := do
  let some (relation, after) := relation? (cs.dropWhile (!isRelationChar ·)) | throw .noRelation
  let terms ← (expression (cs.takeWhile (!isRelationChar ·))).mapError .expression
  let right := Text.trim after
  match Numeral.read? right with
  | some bound => return ⟨terms, relation, bound⟩
  | none => throw (.badRightSide (String.ofList right))

def isContent (line : List Char) : Bool := !line.isEmpty && !("//".toList.isPrefixOf line)

/-- The trimmed lines with content, each with its number. -/
def contentLines (cs : List Char) : List (Nat × List Char) :=
  (((Text.lines cs).map Text.trim).zipIdx 1).filterMap fun (line, number) =>
    if isContent line then some (number, line) else none

def readLine {α : Type} (role : LineRole) (read : List Char → Except LineFault α)
    (line : Nat × List Char) : Except ParseError α :=
  (read line.2).mapError fun fault => .badLine role fault line.1 (String.ofList line.2)

/-- The coefficients of sorted names in terms of a line. -/
def align (names : List String) (terms : List (String × F)) : LinearForm F :=
  ⟨names.map fun name => ((terms.find? (·.1 == name)).map (·.2)).getD 0, names⟩

def insertName (name : String) : List String → List String
  | [] => [name]
  | n :: ns =>
    if name < n then name :: n :: ns
    else if name = n then n :: ns
    else n :: insertName name ns

def sortedNames (names : List String) : List String :=
  names.foldl (fun sorted name => insertName name sorted) []

/-- The program with all its variables in every form. -/
def assemble (goal : Goal) (terms : List (String × F)) (rows : List (Row F)) : LinearProgram F :=
  let names := sortedNames ((terms ++ rows.flatMap (·.terms)).map (·.1))
  { objective := align names terms
    constraints := rows.map fun row =>
      { toLinearForm := align names row.terms, relation := row.relation, bound := row.bound }
    goal }

/-- Reads an objective from the first line with content and a constraint from every further one. -/
def parse (text : String) : Except ParseError (LinearProgram F) := do
  match contentLines text.toList with
  | [] => throw .noLines
  | first :: others =>
    let (goal, terms) ← readLine .objective objective first
    let rows ← others.mapM (readLine .constraint constraint)
    if rows.isEmpty then throw .noConstraints
    return assemble goal terms rows

def parseLog (p : LinearProgram F) : List LogEntry :=
  [.debug (s!"Parsed {p.constraints.length} constraints over variables " ++
    Text.quotedList p.objective.names)]

end Linear

end Optima
