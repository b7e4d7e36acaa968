import Mathlib
import Optima.Assignment.Problem
import Optima.Cell
import Optima.Proofs.Assignment.Reduction
import Optima.Proofs.Linear.Goal
import Optima.Proofs.Lists

namespace Optima

section Range

variable {k n : ℕ} {is : List ℕ}

/-- Distinct numbers below a bound are all of them if there are as many. -/
theorem perm_range_of_nodup (h : is.Nodup) (hlt : ∀ i ∈ is, i < n) (hn : is.length = n) :
    is.Perm (List.range n) :=
  (List.subperm_of_subset h fun i hi => List.mem_range.mpr (hlt i hi)).perm_of_length_le
    (by rw [List.length_range, hn])

def missing (n : ℕ) (is : List ℕ) : List ℕ := (List.range n).filter (· ∉ is)

theorem perm_append_missing (h : is.Nodup) (hlt : ∀ i ∈ is, i < n) :
    (is ++ missing n is).Perm (List.range n) := by
  refine (List.perm_ext_iff_of_nodup ?_ List.nodup_range).mpr fun i => ?_
  · apply h.append (List.nodup_range.filter _)
    intro i hi hmissing
    exact of_decide_eq_true (List.mem_filter.mp hmissing).2 hi
  · rw [List.mem_append, missing, List.mem_filter, List.mem_range, decide_eq_true_iff]
    constructor
    · rintro (hi | hi)
      · exact hlt i hi
      · exact hi.1
    · intro hi
      by_cases hmem : i ∈ is
      · exact .inl hmem
      · exact .inr ⟨hi, hmem⟩

theorem length_missing (h : is.Nodup) (hlt : ∀ i ∈ is, i < n) :
    (missing n is).length = n - is.length := by
  have := (perm_append_missing h hlt).length_eq
  rw [List.length_append, List.length_range] at this
  omega

theorem length_filter_range (h : k ≤ n) : ((List.range n).filter (· < k)).length = k := by
  obtain ⟨m, rfl⟩ := Nat.exists_eq_add_of_le h
  rw [List.range_add, List.filter_append, List.filter_eq_self.mpr fun i hi => by simpa using hi,
    List.filter_eq_nil_iff.mpr fun i hi => ?_, List.append_nil, List.length_range]
  obtain ⟨j, -, rfl⟩ := List.mem_map.mp hi
  simp

theorem length_filter_lt {α : Type} {xs : List α} {f : α → ℕ} (h : (xs.map f).Perm (List.range n))
    (hk : k ≤ n) : (xs.filter fun x => f x < k).length = k := by
  have hlength := (h.filter fun i => decide (i < k)).length_eq
  rw [List.filter_map, List.length_map, length_filter_range hk] at hlength
  exact hlength

end Range

theorem Cell.nodup_table (m n : ℕ) : (Cell.table m n).Nodup := by
  refine List.nodup_flatMap.mpr ⟨fun i _ => ?_, ?_⟩
  · exact List.nodup_range.map fun j l h => congrArg Cell.column h
  · apply List.nodup_range.pairwise_of_forall_ne
    intro i _ l _ hne
    rw [Function.onFun, List.disjoint_left]
    intro c hi hl
    obtain ⟨j, -, rfl⟩ := List.mem_map.mp hi
    obtain ⟨k, -, hk⟩ := List.mem_map.mp hl
    exact hne (congrArg Cell.row hk).symm

/-- The rows and the columns of a square table, each exactly once. -/
structure Perfect (n : ℕ) (cells : List Cell) : Prop where
  rows : (cells.map Cell.row).Perm (List.range n)
  columns : (cells.map Cell.column).Perm (List.range n)

namespace Perfect

variable {n : ℕ} {cells : List Cell}

theorem lt (h : Perfect n cells) {c : Cell} (hc : c ∈ cells) : c.row < n ∧ c.column < n :=
  ⟨List.mem_range.mp (h.rows.mem_iff.mp (List.mem_map_of_mem hc)),
    List.mem_range.mp (h.columns.mem_iff.mp (List.mem_map_of_mem hc))⟩

theorem length (h : Perfect n cells) : cells.length = n := by
  rw [← List.length_map Cell.row, h.rows.length_eq, List.length_range]

/-- What depends on the row only sums up to the same for all perfect matchings. -/
theorem sum_row (h : Perfect n cells) (f : ℕ → ℚ) :
    (cells.map fun c => f c.row).sum = ((List.range n).map f).sum := by
  rw [← (h.rows.map f).sum_eq, List.map_map]
  rfl

theorem sum_column (h : Perfect n cells) (f : ℕ → ℚ) :
    (cells.map fun c => f c.column).sum = ((List.range n).map f).sum := by
  rw [← (h.columns.map f).sum_eq, List.map_map]
  rfl

/-- Amounts taken off rows and columns take the same off every perfect matching. -/
theorem exists_sum_eq {a b : Matrix ℚ} (hab : Matrix.Shifted n a b) :
    ∃ k, ∀ cells, Perfect n cells → (cells.map fun c => b.get c.row c.column).sum =
      (cells.map fun c => a.get c.row c.column).sum - k := by
  obtain ⟨u, v, huv⟩ := hab
  refine ⟨((List.range n).map u).sum + ((List.range n).map v).sum, fun cells h => ?_⟩
  rw [← h.sum_row u, ← h.sum_column v, ← List.sum_map_add, eq_sub_iff_add_eq, ← List.sum_map_add]
  congr 1
  apply List.map_congr_left
  intro c hc
  rw [huv _ (h.lt hc).1 _ (h.lt hc).2]
  ring

end Perfect

namespace AssignmentProblem

variable {p : AssignmentProblem ℚ} {cells : List Cell} {c : Cell}

def cost (p : AssignmentProblem ℚ) (c : Cell) : ℚ := (p.costs.getD c.row []).getD c.column 0

def total (p : AssignmentProblem ℚ) (cells : List Cell) : ℚ := (cells.map p.cost).sum

def goal (p : AssignmentProblem ℚ) : Goal := .ofMaximization p.isMaximization

def isReal (p : AssignmentProblem ℚ) (c : Cell) : Bool :=
  c.row < p.rowCount && c.column < p.columnCount

/-- Every line of the shorter side is matched to a different line of the longer side. -/
structure Matching (p : AssignmentProblem ℚ) (cells : List Cell) : Prop where
  rows : (cells.map Cell.row).Nodup
  columns : (cells.map Cell.column).Nodup
  inside : ∀ c ∈ cells, p.isReal c = true
  length : cells.length = min p.rowCount p.columnCount

theorem rows_of_fault? (hp : p.fault? = none) :
    0 < p.size ∧ ∀ row ∈ p.costs, row.length = p.columnCount := by
  rw [fault?] at hp
  by_cases hempty : p.rowCount = 0 ∨ p.columnCount = 0
  · simp [if_pos hempty] at hp
  rw [if_neg hempty] at hp
  rw [not_or] at hempty
  refine ⟨lt_of_lt_of_le (Nat.pos_of_ne_zero hempty.1) (le_max_left _ _), fun row hrow => ?_⟩
  split at hp
  · simp at hp
  · next hfind =>
    have hlength : ∀ row ∈ p.costs, (row.length != p.columnCount) = false :=
      (find?_zipIdx_eq_none _).mp hfind
    simpa using hlength row hrow

theorem cost_eq_zero (hp : p.fault? = none) (hc : p.isReal c = false) : p.cost c = 0 := by
  rw [cost]
  by_cases hrow : c.row < p.costs.length
  · have hcolumn : ¬ c.column < p.columnCount := by simpa [isReal, rowCount, hrow] using hc
    rw [List.getD_eq_getElem _ _ hrow, List.getD_eq_default]
    rw [(rows_of_fault? hp).2 _ (List.getElem_mem hrow)]
    exact not_lt.mp hcolumn
  · rw [List.getD_eq_default _ _ (not_lt.mp hrow), List.getD_nil]

theorem total_cons (p : AssignmentProblem ℚ) (c : Cell) (cells : List Cell) :
    p.total (c :: cells) = p.cost c + p.total cells := by
  rw [total, List.map_cons, List.sum_cons]
  rfl

theorem total_append (p : AssignmentProblem ℚ) (cells more : List Cell) :
    p.total (cells ++ more) = p.total cells + p.total more := by
  rw [total, List.map_append, List.sum_append]
  rfl

theorem total_filter_isReal (hp : p.fault? = none) (cells : List Cell) :
    p.total (cells.filter p.isReal) = p.total cells := by
  induction cells with
  | nil => rfl
  | cons c cells ih =>
    rw [total_cons, ← ih]
    cases hc : p.isReal c with
    | true => rw [List.filter_cons_of_pos hc, total_cons]
    | false => rw [List.filter_cons_of_neg (by simp [hc]), cost_eq_zero hp hc, zero_add]

/-- The real cells of a perfect matching of the balanced problem match the shorter side. -/
theorem matching_of_perfect (h : Perfect p.size cells) : p.Matching (cells.filter p.isReal) := by
  have hsub : (cells.filter p.isReal).Sublist cells := List.filter_sublist
  refine ⟨(h.rows.nodup_iff.mpr List.nodup_range).sublist (hsub.map _),
    (h.columns.nodup_iff.mpr List.nodup_range).sublist (hsub.map _),
    fun c hc => (List.mem_filter.mp hc).2, ?_⟩
  rcases le_total p.rowCount p.columnCount with hle | hle
  · have hreal : ∀ c ∈ cells, p.isReal c = decide (c.row < p.rowCount) := by
      intro c hc
      have hcolumn : c.column < p.columnCount := (h.lt hc).2.trans_eq (max_eq_right hle)
      simp [isReal, hcolumn]
    rw [min_eq_left hle, List.filter_congr hreal]
    exact length_filter_lt h.rows (le_max_left _ _)
  · have hreal : ∀ c ∈ cells, p.isReal c = decide (c.column < p.columnCount) := by
      intro c hc
      have hrow : c.row < p.rowCount := (h.lt hc).1.trans_eq (max_eq_left hle)
      simp [isReal, hrow]
    rw [min_eq_right hle, List.filter_congr hreal]
    exact length_filter_lt h.columns (le_max_right _ _)

/-- A matching of the problem is the real part of a perfect matching of the balanced one. -/
theorem Matching.exists_perfect (h : p.Matching cells) :
    ∃ more, Perfect p.size (cells ++ more) ∧ ∀ c ∈ more, p.isReal c = false := by
  have hinside (c : Cell) (hc : c ∈ cells) : c.row < p.rowCount ∧ c.column < p.columnCount := by
    simpa [isReal] using h.inside c hc
  have hrow : ∀ i ∈ cells.map Cell.row, i < p.rowCount := by
    intro i hi
    obtain ⟨c, hc, rfl⟩ := List.mem_map.mp hi
    exact (hinside c hc).1
  have hcolumn : ∀ j ∈ cells.map Cell.column, j < p.columnCount := by
    intro j hj
    obtain ⟨c, hc, rfl⟩ := List.mem_map.mp hj
    exact (hinside c hc).2
  have hrow' : ∀ i ∈ cells.map Cell.row, i < p.size :=
    fun i hi => (hrow i hi).trans_le (le_max_left _ _)
  have hcolumn' : ∀ j ∈ cells.map Cell.column, j < p.size :=
    fun j hj => (hcolumn j hj).trans_le (le_max_right _ _)
  have hlength : (missing p.size (cells.map Cell.row)).length =
      (missing p.size (cells.map Cell.column)).length := by
    rw [length_missing h.rows hrow', length_missing h.columns hcolumn', List.length_map,
      List.length_map]
  -- the lines that are left over are paired in order
  refine ⟨((missing p.size (cells.map Cell.row)).zip (missing p.size (cells.map Cell.column))).map
    fun ij => ⟨ij.1, ij.2⟩, ⟨?_, ?_⟩, fun c hc => ?_⟩
  · rw [List.map_append, List.map_map]
    change (_ ++ List.map Prod.fst _).Perm _
    rw [List.map_fst_zip hlength.le]
    exact perm_append_missing h.rows hrow'
  · rw [List.map_append, List.map_map]
    change (_ ++ List.map Prod.snd _).Perm _
    rw [List.map_snd_zip hlength.ge]
    exact perm_append_missing h.columns hcolumn'
  · obtain ⟨⟨i, j⟩, hij, rfl⟩ := List.mem_map.mp hc
    obtain ⟨hi, hj⟩ := List.of_mem_zip hij
    have hi := of_decide_eq_true (List.mem_filter.mp hi).2
    have hj := of_decide_eq_true (List.mem_filter.mp hj).2
    have hcells := h.length
    -- the shorter side has no line left over, so a new pair has a dummy there
    rcases le_total p.rowCount p.columnCount with hle | hle
    · have hall := perm_range_of_nodup h.rows hrow
        (by rw [List.length_map, hcells, min_eq_left hle])
      rw [hall.mem_iff, List.mem_range] at hi
      simp [isReal, hi]
    · have hall := perm_range_of_nodup h.columns hcolumn
        (by rw [List.length_map, hcells, min_eq_right hle])
      rw [hall.mem_iff, List.mem_range] at hj
      simp [isReal, hj]

end AssignmentProblem

end Optima
