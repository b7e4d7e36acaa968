import Mathlib
import Optima.Proofs.Assignment.Matching
import Optima.Proofs.Assignment.Steps

namespace Optima.Assignment

variable {m : Marks} {s : State ℚ} {n j : ℕ} {c : Cell} {path : List Cell}

namespace Marks

theorem mem_starred (h : m.Square n) : c ∈ m.starred ↔ m.get c = some .starred := by
  rw [starred, List.mem_filter, Cell.mem_table, beq_iff_eq, h.rows]
  exact ⟨And.right, fun hc => ⟨h.lt_of_get hc, hc⟩⟩

theorem nodup_starred (m : Marks) : m.starred.Nodup := (Cell.nodup_table _ _).filter _

theorem Independent.nodup_rows (hm : m.Independent) (h : m.Square n) :
    (m.starred.map Cell.row).Nodup := by
  refine m.nodup_starred.map_on fun c hc d hd hcd => ?_
  obtain ⟨i, j⟩ := c
  obtain ⟨k, l⟩ := d
  obtain rfl : i = k := hcd
  rw [hm.row i j l ((mem_starred h).mp hc) ((mem_starred h).mp hd)]

theorem Independent.nodup_columns (hm : m.Independent) (h : m.Square n) :
    (m.starred.map Cell.column).Nodup := by
  refine m.nodup_starred.map_on fun c hc d hd hcd => ?_
  obtain ⟨i, j⟩ := c
  obtain ⟨k, l⟩ := d
  obtain rfl : j = l := hcd
  rw [hm.column i k j ((mem_starred h).mp hc) ((mem_starred h).mp hd)]

/-- Without a star in every column there are fewer stars than columns. -/
theorem Independent.length_starred_lt (hm : m.Independent) (h : m.Square n) (hj : j < n)
    (hfree : ∀ i, m.get ⟨i, j⟩ ≠ some .starred) : m.starred.length < n := by
  have hnotMem : j ∉ m.starred.map Cell.column := by
    intro hmem
    obtain ⟨⟨i, l⟩, hc, rfl⟩ := List.mem_map.mp hmem
    exact hfree i ((mem_starred h).mp hc)
  have hsubset : j :: m.starred.map Cell.column ⊆ List.range n := by
    refine List.cons_subset.mpr ⟨List.mem_range.mpr hj, fun l hl => ?_⟩
    obtain ⟨c, hc, rfl⟩ := List.mem_map.mp hl
    exact List.mem_range.mpr (h.lt_of_get ((mem_starred h).mp hc)).2
  have hlength := (List.subperm_of_subset
    (List.nodup_cons.mpr ⟨hnotMem, hm.nodup_columns h⟩) hsubset).length_le
  rwa [List.length_cons, List.length_map, List.length_range] at hlength

end Marks

theorem Leads.length_primed_eq (h : Leads m j path) :
    (path.filter fun c => m.get c = some .primed).length =
      (path.filter fun c => m.get c = some .starred).length := by
  induction h with
  | free => rfl
  | step hs hp _ ih =>
    rw [List.filter_cons_of_neg (by simp [hs]), List.filter_cons_of_pos (by simpa using hp),
      List.filter_cons_of_pos (by simpa using hs), List.filter_cons_of_neg (by simp [hp]),
      List.length_cons, List.length_cons, ih]

theorem length_starred_eq (hn : m.Square n) {cells others : List Cell} (hcells : cells.Nodup)
    (hothers : others.Nodup) (hdisjoint : ∀ d ∈ cells, d ∉ others)
    (h : ∀ d, m.get d = some .starred ↔ d ∈ cells ∨ d ∈ others) :
    m.starred.length = cells.length + others.length := by
  rw [← List.length_append]
  refine ((List.perm_ext_iff_of_nodup m.nodup_starred ?_).mpr fun d => ?_).length_eq
  · exact hcells.append hothers fun d => hdisjoint d
  · rw [Marks.mem_starred hn, h, List.mem_append]

/-- Flipping a path that starts and ends with a prime makes a star more. -/
theorem Augmenting.length_starred (h : Augmenting m c path) (hn : m.Square n) :
    (m.augment (c :: path)).starred.length = m.starred.length + 1 := by
  have hoff : (m.starred.filter (· ∉ c :: path)).Nodup := m.nodup_starred.filter _
  have hmem (d : Cell) : d ∈ m.starred.filter (· ∉ c :: path) ↔
      d ∉ c :: path ∧ m.get d = some .starred := by
    rw [List.mem_filter, Marks.mem_starred hn, decide_eq_true_iff, and_comm]
  have hprimes := length_starred_eq (h.square hn) (h.nodup.filter fun d => m.get d = some .primed)
    hoff (fun d hd hd' => ((hmem d).mp hd').1 (List.mem_filter.mp hd).1) fun d => by
      rw [h.starred_iff hn, hmem, List.mem_filter, decide_eq_true_iff]
  have hstars := length_starred_eq hn (h.nodup.filter fun d => m.get d = some .starred)
    hoff (fun d hd hd' => ((hmem d).mp hd').1 (List.mem_filter.mp hd).1) fun d => by
      rw [hmem, List.mem_filter, decide_eq_true_iff]
      tauto
  rw [List.filter_cons_of_pos (by simpa using h.primed), List.length_cons,
    h.leads.length_primed_eq] at hprimes
  rw [List.filter_cons_of_neg (by simp [h.primed])] at hstars
  omega

namespace State

def coveredRowCount (s : State ℚ) : ℕ := ((List.range s.size).filter s.isRowCovered).length

theorem Covered.coveredRowCount_le (h : s.Covered) (hl : s.Laid n) :
    s.coveredRowCount ≤ s.marks.starred.length := by
  have hsubset : (List.range s.size).filter s.isRowCovered ⊆ s.marks.starred.map Cell.row := by
    intro i hi
    obtain ⟨j, hj⟩ := h.row_star i (List.mem_filter.mp hi).2
    exact List.mem_map.mpr ⟨⟨i, j⟩, (Marks.mem_starred hl.marks).mpr hj, rfl⟩
  have hlength := (List.subperm_of_subset (List.nodup_range.filter _) hsubset).length_le
  rwa [List.length_map] at hlength

theorem coveredRowCount_cover (hl : s.Laid n) (hrow : c.row < n)
    (hc : s.isRowCovered c.row = false) (k : ℕ) :
    s.coveredRowCount < (s.adjust (.cover c k)).coveredRowCount := by
  have hrows := isRowCovered_cover hl hrow k
  have hsize : (s.adjust (.cover c k)).size = s.size := (hl.marks.set c _).rows.trans hl.size.symm
  rw [coveredRowCount, coveredRowCount, hsize]
  refine length_filter_lt_of_imp (fun i hi => ?_) (List.mem_filter.mpr
    ⟨List.mem_range.mpr (hl.size.symm ▸ hrow), ?_⟩) hc
  · rw [hrows, hi, ite_self]
  · rw [hrows, if_pos rfl]

theorem length_starred_primed (hl : s.Laid n) (hrow : c.row < n) (hcolumn : c.column < n)
    (hc : s.marks.get c = none) : (s.primed c).starred.length = s.marks.starred.length := by
  refine ((List.perm_ext_iff_of_nodup (Marks.nodup_starred _)
    (Marks.nodup_starred _)).mpr fun d => ?_).length_eq
  have hsquare : (s.primed c).Square n := hl.marks.set c _
  rw [Marks.mem_starred hsquare, Marks.mem_starred hl.marks,
    starred_primed_iff hl hrow hcolumn hc]

end State

end Optima.Assignment
