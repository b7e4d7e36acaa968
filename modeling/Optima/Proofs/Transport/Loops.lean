import Mathlib
import Optima.Proofs.Transport.Plans
import Optima.Transport.Improvement

namespace Optima.Transport

open Improvement

/-- A trail of distinct cells, the last one first, that goes on from a cell through basic cells
along rows and columns in turn. The flag says whether the next cell is to be found along a row. -/
inductive Trail (plan : Plan ℚ) (first : Cell) : List Cell → Bool → Prop where
  | start : Trail plan first [first] true
  | row {path : List Cell} {c : Cell} (h : Trail plan first path true)
      (hc : c.row = (path.headD first).row) (hbasic : plan.isBasic c = true) (hnew : c ∉ path) :
      Trail plan first (c :: path) false
  | column {path : List Cell} {c : Cell} (h : Trail plan first path false)
      (hc : c.column = (path.headD first).column) (hbasic : plan.isBasic c = true)
      (hnew : c ∉ path) : Trail plan first (c :: path) true

/-- A trail that comes back to its first cell along a column. -/
def IsLoop (plan : Plan ℚ) (first : Cell) (cells : List Cell) : Prop :=
  ∃ path, Trail plan first path false ∧ (path.headD first).column = first.column ∧
    4 ≤ path.length ∧ cells = path.reverse

/-- The amounts that the cells of a loop gain and lose in turn. -/
def changes (theta : ℚ) (cells : List Cell) : List (Cell × ℚ) :=
  cells.zipIdx.map fun (c, i) => (c, if i % 2 = 0 then theta else -theta)

section Search

variable {s : State ℚ} {first c : Cell} {path cells : List Cell} {alongRow : Bool} {n : ℕ}

theorem State.mem_nextCells (h : c ∈ s.nextCells first alongRow) :
    if alongRow then c.row = first.row else c.column = first.column := by
  cases alongRow with
  | true =>
    obtain ⟨j, -, rfl⟩ := List.mem_map.mp h
    rfl
  | false =>
    obtain ⟨i, -, rfl⟩ := List.mem_map.mp h
    rfl

theorem State.isLoop_of_extendLoop? (h : Trail s.plan first path alongRow)
    (hfound : s.extendLoop? first n path alongRow = some cells) : IsLoop s.plan first cells := by
  -- induction on the bound, for every trail the search may have come to
  induction n generalizing path alongRow with
  | zero => simp [extendLoop?] at hfound
  | succ n ih =>
    obtain ⟨c, hc, hbody⟩ := List.exists_of_findSome?_eq_some hfound
    have hline := mem_nextCells hc
    split_ifs at hbody with hclose hextend
    · simp only [Bool.and_eq_true, Bool.not_eq_true', decide_eq_true_eq] at hclose
      obtain ⟨⟨rfl, rfl⟩, hlength⟩ := hclose
      exact ⟨path, h, hline.symm, hlength, (Option.some.inj hbody).symm⟩
    · simp only [Bool.and_eq_true, Bool.not_eq_true', List.contains_eq_mem,
        decide_eq_false_iff_not] at hextend
      obtain ⟨hbasic, hnew⟩ := hextend
      cases alongRow with
      | true => exact ih (.row h hline hbasic hnew) hbody
      | false => exact ih (.column h hline hbasic hnew) hbody

theorem State.isLoop_of_closedLoop? (h : s.closedLoop? c = some cells) :
    IsLoop s.plan c cells :=
  isLoop_of_extendLoop? .start h

end Search

theorem changes_append (theta : ℚ) (cells : List Cell) (c : Cell) :
    changes theta (cells ++ [c]) =
      changes theta cells ++ [(c, if cells.length % 2 = 0 then theta else -theta)] := by
  rw [changes, List.zipIdx_append, List.map_append]
  simp [changes]

theorem losing_append (cells : List Cell) (c : Cell) :
    losing (cells ++ [c]) = losing cells ++ if cells.length % 2 = 1 then [c] else [] := by
  rw [losing, List.zipIdx_append, List.filter_append, List.map_append, losing]
  by_cases h : cells.length % 2 = 1 <;> simp [h]

theorem map_fst_changes (theta : ℚ) (cells : List Cell) :
    (changes theta cells).map Prod.fst = cells := by
  rw [changes, List.map_map]
  exact List.zipIdx_map_fst 0 cells

theorem mem_changes {theta : ℚ} {cells : List Cell} {a : Cell × ℚ} (h : a ∈ changes theta cells) :
    a.2 = theta ∨ a.1 ∈ losing cells ∧ a.2 = -theta := by
  obtain ⟨⟨c, i⟩, hi, rfl⟩ := List.mem_map.mp h
  by_cases heven : i % 2 = 0
  · exact .inl (if_pos heven)
  · refine .inr ⟨List.mem_map.mpr ⟨(c, i), List.mem_filter.mpr ⟨hi, ?_⟩, rfl⟩, if_neg heven⟩
    exact beq_iff_eq.mpr (Nat.mod_two_ne_zero.mp heven)

theorem mem_changes_of_losing {cells : List Cell} {c : Cell} (h : c ∈ losing cells) (theta : ℚ) :
    (c, -theta) ∈ changes theta cells := by
  obtain ⟨⟨d, i⟩, hi, rfl⟩ := List.mem_map.mp h
  obtain ⟨hmem, hodd⟩ := List.mem_filter.mp hi
  refine List.mem_map.mpr ⟨(d, i), hmem, ?_⟩
  have hodd : i % 2 = 1 := beq_iff_eq.mp hodd
  simp [hodd]

namespace Trail

variable {plan : Plan ℚ} {first c : Cell} {path : List Cell} {alongRow : Bool} {theta : ℚ}

theorem nodup (h : Trail plan first path alongRow) : path.Nodup := by
  induction h with
  | start => exact List.nodup_singleton first
  | row _ _ _ hnew ih => exact List.nodup_cons.mpr ⟨hnew, ih⟩
  | column _ _ _ hnew ih => exact List.nodup_cons.mpr ⟨hnew, ih⟩

theorem isBasic_of_mem (h : Trail plan first path alongRow) (hc : c ∈ path) :
    c = first ∨ plan.isBasic c = true := by
  induction h with
  | start => exact .inl (List.mem_singleton.mp hc)
  | row _ _ hbasic _ ih | column _ _ hbasic _ ih =>
    rcases List.mem_cons.mp hc with rfl | hc
    · exact .inr hbasic
    · exact ih hc

/-- A trail that goes on along a row has gained a cell more than it has lost. -/
theorem length_mod_two (h : Trail plan first path alongRow) :
    path.length % 2 = if alongRow then 1 else 0 := by
  induction h with
  | start => rfl
  | @row path c _ _ _ _ ih =>
    have ih : path.length % 2 = 1 := ih
    change (path.length + 1) % 2 = 0
    omega
  | @column path c _ _ _ _ ih =>
    have ih : path.length % 2 = 0 := ih
    change (path.length + 1) % 2 = 1
    omega

theorem changes_row {path : List Cell} (h : Trail plan first path true) (theta : ℚ) (c : Cell) :
    changes theta (c :: path).reverse = changes theta path.reverse ++ [(c, -theta)] := by
  rw [List.reverse_cons, changes_append, List.length_reverse, h.length_mod_two]
  rfl

theorem changes_column {path : List Cell} (h : Trail plan first path false) (theta : ℚ)
    (c : Cell) :
    changes theta (c :: path).reverse = changes theta path.reverse ++ [(c, theta)] := by
  rw [List.reverse_cons, changes_append, List.length_reverse, h.length_mod_two]
  rfl

theorem losing_row {path : List Cell} (h : Trail plan first path true) (c : Cell) :
    losing (c :: path).reverse = losing path.reverse ++ [c] := by
  rw [List.reverse_cons, losing_append, List.length_reverse, h.length_mod_two]
  rfl

theorem losing_column {path : List Cell} (h : Trail plan first path false) (c : Cell) :
    losing (c :: path).reverse = losing path.reverse := by
  rw [List.reverse_cons, losing_append, List.length_reverse, h.length_mod_two]
  exact List.append_nil _

theorem mem_changes_first (h : Trail plan first path alongRow) (theta : ℚ) :
    (first, theta) ∈ changes theta path.reverse := by
  induction h with
  | start => exact List.mem_singleton_self _
  | row h _ _ _ ih =>
    rw [h.changes_row]
    exact List.mem_append_left _ ih
  | column h _ _ _ ih =>
    rw [h.changes_column]
    exact List.mem_append_left _ ih

theorem isBasic_of_losing (h : Trail plan first path alongRow) (hc : c ∈ losing path.reverse) :
    plan.isBasic c = true := by
  induction h with
  | start => exact absurd hc List.not_mem_nil
  | row h _ hbasic _ ih =>
    rw [h.losing_row] at hc
    rcases List.mem_append.mp hc with hc | hc
    · exact ih hc
    · exact List.mem_singleton.mp hc ▸ hbasic
  | column h _ _ _ ih =>
    rw [h.losing_column] at hc
    exact ih hc

/-- What the rows gain and lose cancels out but for the last cell of a trail that goes on along a
row. -/
theorem sum_row (h : Trail plan first path alongRow) (u : ℕ → ℚ) (theta : ℚ) :
    ((changes theta path.reverse).map fun a => u a.1.row * a.2).sum =
      if alongRow then u (path.headD first).row * theta else 0 := by
  induction h with
  | start => simp [changes]
  | row h hc _ _ ih =>
    rw [h.changes_row, List.map_append, List.sum_append, ih]
    simp [hc]
  | column h _ _ _ ih =>
    rw [h.changes_column, List.map_append, List.sum_append, ih]
    simp

/-- What the columns gain and lose cancels out but for the first cell and, on a trail that goes on
along a column, the last one. -/
theorem sum_column (h : Trail plan first path alongRow) (v : ℕ → ℚ) (theta : ℚ) :
    ((changes theta path.reverse).map fun a => v a.1.column * a.2).sum =
      v first.column * theta - if alongRow then 0 else v (path.headD first).column * theta := by
  induction h with
  | start => simp [changes]
  | row h _ _ _ ih =>
    rw [h.changes_row, List.map_append, List.sum_append, ih]
    simp [sub_eq_add_neg]
  | column h hc _ _ ih =>
    rw [h.changes_column, List.map_append, List.sum_append, ih]
    simp [hc]

end Trail

namespace IsLoop

variable {plan : Plan ℚ} {first c : Cell} {cells : List Cell} {theta : ℚ}

theorem nodup (h : IsLoop plan first cells) : cells.Nodup := by
  obtain ⟨path, htrail, -, -, rfl⟩ := h
  exact List.nodup_reverse.mpr htrail.nodup

theorem isBasic_of_mem (h : IsLoop plan first cells) (hc : c ∈ cells) :
    c = first ∨ plan.isBasic c = true := by
  obtain ⟨path, htrail, -, -, rfl⟩ := h
  exact htrail.isBasic_of_mem (List.mem_reverse.mp hc)

theorem isBasic_of_losing (h : IsLoop plan first cells) (hc : c ∈ losing cells) :
    plan.isBasic c = true := by
  obtain ⟨path, htrail, -, -, rfl⟩ := h
  exact htrail.isBasic_of_losing hc

theorem mem_changes_first (h : IsLoop plan first cells) (theta : ℚ) :
    (first, theta) ∈ changes theta cells := by
  obtain ⟨path, htrail, -, -, rfl⟩ := h
  exact htrail.mem_changes_first theta

theorem losing_ne_nil (h : IsLoop plan first cells) : losing cells ≠ [] := by
  obtain ⟨path, htrail, -, -, rfl⟩ := h
  cases htrail with
  | row htrail =>
    rw [htrail.losing_row]
    exact List.append_ne_nil_of_right_ne_nil _ (List.cons_ne_nil _ _)

/-- Moving an amount around a loop changes no row. -/
theorem sum_row (h : IsLoop plan first cells) (u : ℕ → ℚ) (theta : ℚ) :
    ((changes theta cells).map fun a => u a.1.row * a.2).sum = 0 := by
  obtain ⟨path, htrail, -, -, rfl⟩ := h
  exact htrail.sum_row u theta

theorem sum_column (h : IsLoop plan first cells) (v : ℕ → ℚ) (theta : ℚ) :
    ((changes theta cells).map fun a => v a.1.column * a.2).sum = 0 := by
  obtain ⟨path, htrail, hclosed, -, rfl⟩ := h
  rw [htrail.sum_column, hclosed]
  exact sub_self _

end IsLoop

end Optima.Transport
