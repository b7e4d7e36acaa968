import Optima.Bisection
import Optima.Cell
import Optima.Scalar

namespace Optima

structure Shipment (F : Type) where
  cell : Cell
  amount : F
  deriving BEq

/-- Amounts for some cells, in the order of the cells and at most one for each. -/
abbrev Plan (F : Type) := List (Shipment F)

namespace Plan

variable {F : Type} [Scalar F]

/-- Every shipment comes before those that follow it. -/
def InOrder (p : Plan F) : Prop := p.Pairwise fun s t => s.cell.precedes t.cell

/-- Where the shipment of a cell stands, or else the last before it. -/
def seat (p : Plan F) (c : Cell) : Nat := Bisection.lastWithin (fun s => c.precedes s.cell) p

def shipment? (p : Plan F) (c : Cell) : Option (Shipment F) :=
  p[p.seat c]?.filter fun s => decide (s.cell = c)

def amount (p : Plan F) (c : Cell) : F :=
  match p.shipment? c with
  | some s => s.amount
  | none => 0

/-- Changes the shipment of a cell, or puts a new one at its place. -/
def alter (c : Cell) (change : F → F) (fresh : Option F) (p : Plan F) : Plan F :=
  let i := p.seat c
  match p[i]? with
  | none => fresh.toList.map fun x => ⟨c, x⟩
  | some s =>
    if s.cell = c then p.set i ⟨c, change s.amount⟩
    else
      match fresh with
      | some x => p.insertIdx (if s.cell.precedes c then i + 1 else i) ⟨c, x⟩
      | none => p

def add (p : Plan F) (c : Cell) (x : F) : Plan F := alter c (· + x) (some x) p

/-- Changes the amount of a cell; a cell without a shipment gets one only for a gain. -/
def shift (p : Plan F) (c : Cell) (x : F) : Plan F :=
  alter c (· + x) (if 0 < x then some x else none) p

/-- Cells that ship more than a negligible amount. -/
def basicCells (p : Plan F) : List Cell :=
  (p.filter fun s => decide (Scalar.tolerance < s.amount)).map (·.cell)

def isBasic (p : Plan F) (c : Cell) : Bool := Scalar.tolerance < p.amount c

def cost (p : Plan F) (unitCost : Cell → F) : F :=
  Scalar.sum (p.map fun s => unitCost s.cell * s.amount)

end Plan

end Optima
