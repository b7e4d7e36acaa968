namespace Optima

structure Cell where
  row : Nat
  column : Nat
  deriving DecidableEq

namespace Cell

def precedes (a b : Cell) : Bool := a.row < b.row || (a.row == b.row && a.column < b.column)

theorem precedes_iff {a b : Cell} :
    a.precedes b ↔ a.row < b.row ∨ a.row = b.row ∧ a.column < b.column := by
  simp [precedes]

theorem precedes_irrefl (a : Cell) : a.precedes a = false := by simp [precedes]

theorem precedes_trans {a b c : Cell} (hab : a.precedes b) (hbc : b.precedes c) :
    a.precedes c := by
  rw [precedes_iff] at *; omega

theorem precedes_asymm {a b : Cell} (h : a.precedes b) : b.precedes a = false := by
  rw [← Bool.not_eq_true, precedes_iff]; rw [precedes_iff] at h; omega

theorem precedes_of_ne {a b : Cell} (hne : a ≠ b) (h : ¬ b.precedes a) : a.precedes b := by
  rw [precedes_iff] at *
  cases a; cases b; simp at *; omega

def table (rows columns : Nat) : List Cell :=
  (List.range rows).flatMap fun i => (List.range columns).map fun j => ⟨i, j⟩

theorem mem_table {rows columns : Nat} {c : Cell} :
    c ∈ table rows columns ↔ c.row < rows ∧ c.column < columns := by
  obtain ⟨i, j⟩ := c
  simp [table]

def text (c : Cell) : String := s!"({c.row + 1},{c.column + 1})"

def logText (c : Cell) : String := s!"Cell \x7b row: {c.row}, column: {c.column} \x7d"

end Cell

end Optima
