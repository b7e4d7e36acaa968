import Optima.Matrix
import Optima.Problem.Fault

namespace Optima

structure AssignmentProblem (F : Type) where
  costs : List (List F)
  rowLabels : List String
  columnLabels : List String
  isMaximization : Bool
  deriving BEq

namespace AssignmentProblem

variable {F : Type} [Scalar F]

def rowCount (p : AssignmentProblem F) : Nat := p.costs.length

def columnCount (p : AssignmentProblem F) : Nat := (p.costs.headD []).length

def size (p : AssignmentProblem F) : Nat := max p.rowCount p.columnCount

def fault? (p : AssignmentProblem F) : Option ProblemFault :=
  if p.rowCount = 0 ∨ p.columnCount = 0 then some .emptyCosts
  else
    match p.costs.zipIdx.find? fun (row, _) => row.length != p.columnCount with
    | some (row, i) => some (.costRowLength i row.length p.columnCount)
    | none =>
      if p.costs.flatten.any fun c => !Scalar.isFinite c then some .costNotFinite
      else if !p.rowLabels.isEmpty && p.rowLabels.length ≠ p.rowCount then
        some (.rowLabelCount p.rowLabels.length p.rowCount)
      else if !p.columnLabels.isEmpty && p.columnLabels.length ≠ p.columnCount then
        some (.columnLabelCount p.columnLabels.length p.columnCount)
      else none

/-- The label of line `i`: as given, numbered if there are none, or that of a dummy beyond the
`count` lines of the problem. -/
def label (given : List String) (letter : String) (count i : Nat) : String :=
  if i < count then given.getD i s!"{letter}{i + 1}" else s!"Dummy-{i + 1}"

def balance (p : AssignmentProblem F) : AssignmentProblem F :=
  { p with
    costs := (Matrix.ofFn p.size p.size fun i j => (p.costs.getD i []).getD j 0).rows
    rowLabels := (List.range p.size).map (label p.rowLabels "R" p.rowCount)
    columnLabels := (List.range p.size).map (label p.columnLabels "C" p.columnCount) }

end AssignmentProblem

end Optima
