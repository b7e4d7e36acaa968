import Optima.Numeral
import Optima.Scalar

namespace Optima

/-- A dense matrix, whose size is fixed when it is made. -/
structure Matrix (F : Type) where
  rows : List (List F)
  rowCount : Nat
  columnCount : Nat
  deriving BEq

namespace Matrix

variable {F : Type} [Scalar F]

def ofRows (rows : List (List F)) : Matrix F :=
  ⟨rows, rows.length, (rows.head?.map List.length).getD 0⟩

def ofFn (m n : Nat) (f : Nat → Nat → F) : Matrix F :=
  ⟨(List.range m).map fun i => (List.range n).map (f i), m, n⟩

def zeros (m n : Nat) : Matrix F := ofFn m n fun _ _ => 0

def row (a : Matrix F) (i : Nat) : List F := a.rows.getD i []

def get (a : Matrix F) (i j : Nat) : F := (a.row i).getD j 0

def column (a : Matrix F) (j : Nat) : List F := a.rows.map (·.getD j 0)

def map (a : Matrix F) (f : F → F) : Matrix F := { a with rows := a.rows.map (·.map f) }

def modifyRow (a : Matrix F) (i : Nat) (f : List F → List F) : Matrix F :=
  { a with rows := a.rows.modify i f }

def set (a : Matrix F) (i j : Nat) (x : F) : Matrix F := a.modifyRow i (·.set j x)

def multiplyRow (a : Matrix F) (i : Nat) (k : F) : Matrix F := a.modifyRow i (·.map (· * k))

/-- The entries of `r` with `k` times those of `source` added, in the columns of a matrix; what
lies beyond its columns stays. -/
def combine (a : Matrix F) (k : F) (source r : List F) : List F :=
  (r.take a.columnCount).zipWith (fun x y => x + k * y) source ++ r.drop a.columnCount

def addMultiple (a : Matrix F) (source target : Nat) (k : F) : Matrix F :=
  a.modifyRow target (a.combine k (a.row source))

def addToRow (a : Matrix F) (i : Nat) (x : F) : Matrix F := a.modifyRow i (·.map (· + x))

def addToColumn (a : Matrix F) (j : Nat) (x : F) : Matrix F :=
  { a with rows := a.rows.map (·.modify j (· + x)) }

def rowMinimum? (a : Matrix F) (i : Nat) : Option F := Scalar.least? (a.row i)

def columnMinimum? (a : Matrix F) (j : Nat) : Option F := Scalar.least? (a.column j)

def maximum? (a : Matrix F) : Option F := Scalar.greatest? a.rows.flatten

theorem get_ofFn {m n : Nat} {f : Nat → Nat → F} {i j : Nat} (hi : i < m) (hj : j < n) :
    (ofFn m n f).get i j = f i j := by
  simp [get, row, ofFn, List.getD_eq_getElem?_getD, hi, hj]

omit [Scalar F] in
theorem row_map (a : Matrix F) (f : F → F) (i : Nat) : (a.map f).row i = (a.row i).map f := by
  simp only [row, map, List.getD_eq_getElem?_getD, List.getElem?_map]
  cases a.rows[i]? <;> rfl

def text [Numeral F] (a : Matrix F) : String :=
  String.join (a.rows.map fun r =>
    " ".intercalate (r.map fun x => Decimal.padLeft 8 (Numeral.text x)) ++ "\n")

end Matrix

end Optima
