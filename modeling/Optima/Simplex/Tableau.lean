import Optima.Linear.Program
import Optima.Matrix

namespace Optima.Simplex

/-- The numbers of a tableau. `F` holds coefficients and right sides, `C` holds costs. -/
structure Tableau (F C : Type) where
  names : List String
  cost : List C
  basis : List Nat
  basicCost : List C
  rhs : List F
  body : Matrix F
  /-- What the basic columns cost in place of one unit of a column, less its own cost. -/
  relativeCost : List C
  objectiveValue : C
  goal : Goal
  deriving BEq

inductive PivotRule where
  /-- The column with the best relative cost, the first of equals. -/
  | largestCoefficient
  /-- The first column with an improving relative cost. -/
  | firstProfitable
  deriving DecidableEq

namespace Tableau

variable {F C : Type} [Scalar F] [Cost F C]

def rowCount (t : Tableau F C) : Nat := t.basis.length

def columnCount (t : Tableau F C) : Nat := t.names.length

def basicTotal (t : Tableau F C) (amounts : List F) : C :=
  Cost.sum (t.basicCost.zipWith Cost.scale amounts)

def price (t : Tableau F C) : Tableau F C :=
  { t with
    objectiveValue := t.basicTotal t.rhs
    relativeCost := (List.range t.columnCount).map fun j =>
      Cost.sub (t.basicTotal (t.body.column j)) (t.cost.getD j Cost.zero) }

def entering? (rule : PivotRule) (t : Tableau F C) : Option Nat :=
  match rule with
  | .firstProfitable => t.relativeCost.findIdx? t.goal.improves
  | .largestCoefficient =>
    ((firstBest? (fun a b => t.goal.prefers a.1 b.1) t.relativeCost.zipIdx).filter
      (t.goal.improves ·.1)).map (·.2)

/-- Right side by coefficient for the rows whose coefficient in the column is positive. -/
def ratios (t : Tableau F C) (column : Nat) : List (Option F) :=
  (t.body.column column).zipWith
    (fun a b => if Scalar.tolerance < a then some (Scalar.snap b / a) else none) t.rhs

/-- The first row with the smallest nonnegative ratio, and that ratio. -/
def smallestRatio? (ratios : List (Option F)) : Option (Nat × F) :=
  let candidates := ratios.zipIdx.filterMap fun (r, i) =>
    match r with
    | some r => if 0 ≤ r then some (i, r) else none
    | none => none
  firstBest? (fun a b => decide (a.2 < b.2)) candidates

/-- Divides the pivot row by the pivot and clears the rest of the pivot column. -/
def eliminate (t : Tableau F C) (row column : Nat) : Tableau F C :=
  let pivot := t.body.get row column
  let pivotRow := (t.body.row row).map (· * (1 / pivot))
  let pivotRhs := t.rhs.getD row 0 / pivot
  let clear (i : Nat) (r : List F) : List F :=
    let k := r.getD column 0
    if i = row then pivotRow
    else if t.rowCount ≤ i || k == 0 then r
    else t.body.combine (-k) pivotRow r
  let clearRhs (i : Nat) (b : F) : F :=
    let k := t.body.get i column
    if i = row then pivotRhs
    else if t.rowCount ≤ i || k == 0 then b
    else b - k * pivotRhs
  { t with
    body := { t.body with rows := t.body.rows.mapIdx clear }
    rhs := t.rhs.mapIdx clearRhs }

/-- Replaces negligible numbers in the rows by zero: what is left where the exact result is zero. -/
def snap (t : Tableau F C) : Tableau F C :=
  { t with body := t.body.map Scalar.snap, rhs := t.rhs.map Scalar.snap }

def enter (t : Tableau F C) (row column : Nat) : Tableau F C :=
  { t with
    basis := t.basis.set row column
    basicCost := t.basicCost.set row (t.cost.getD column Cost.zero) }

def pivot (t : Tableau F C) (row column : Nat) : Tableau F C :=
  (((t.eliminate row column).snap).enter row column).price

/-- The value of a column: the right side of its row if it is basic, zero otherwise. -/
def value (t : Tableau F C) (column : Nat) : F :=
  match t.basis.idxOf? column with
  | some i => t.rhs.getD i 0
  | none => 0

end Tableau

end Optima.Simplex
