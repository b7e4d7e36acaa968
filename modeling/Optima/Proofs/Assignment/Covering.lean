import Mathlib
import Optima.Proofs.Assignment.Path
import Optima.Proofs.Lists
import Optima.Proofs.Scalar

namespace Optima.Assignment.State

variable {s : State ℚ} {n i j : ℕ} {c d : Cell}

structure Laid (s : State ℚ) (n : ℕ) : Prop where
  marks : s.marks.Square n
  rows : s.coveredRows.length = n
  columns : s.coveredColumns.length = n

/-- How the covered lines and the marks go together. -/
structure Covered (s : State ℚ) : Prop where
  independent : s.marks.Independent
  singlePrimes : s.marks.SinglePrimes
  star : ∀ c, s.marks.get c = some .starred → s.isRowCovered c.row = !s.isColumnCovered c.column
  prime : ∀ c, s.marks.get c = some .primed →
    s.isRowCovered c.row = true ∧ s.isColumnCovered c.column = false
  column_star : ∀ j, s.isColumnCovered j = true → ∃ i, s.marks.get ⟨i, j⟩ = some .starred
  row_star : ∀ i, s.isRowCovered i = true → ∃ j, s.marks.get ⟨i, j⟩ = some .starred
  leads : ∀ j, s.isColumnCovered j = false → ∃ path, Leads s.marks j path

theorem Laid.size (h : s.Laid n) : s.size = n := h.marks.rows

theorem uncoveredZero?_eq_some (h : s.uncoveredZero? = some c) :
    c.row < s.size ∧ c.column < s.size ∧ s.isRowCovered c.row = false ∧
      s.isColumnCovered c.column = false ∧ s.isZero c = true := by
  have hmem := List.mem_of_find?_eq_some h
  obtain ⟨htable, hcovered⟩ := List.mem_filter.mp hmem
  obtain ⟨hrow, hcolumn⟩ := Cell.mem_table.mp htable
  rw [Bool.and_eq_true, Bool.not_eq_true', Bool.not_eq_true'] at hcovered
  exact ⟨hrow, hcolumn, hcovered.1, hcovered.2, List.find?_some h⟩

namespace Covered

theorem congr (h : s.Covered) {t : State ℚ} (hm : t.marks = s.marks)
    (hr : t.coveredRows = s.coveredRows) (hc : t.coveredColumns = s.coveredColumns) :
    t.Covered := by
  have hrow (i : ℕ) : t.isRowCovered i = s.isRowCovered i := by
    rw [isRowCovered, isRowCovered, hr]
  have hcolumn (j : ℕ) : t.isColumnCovered j = s.isColumnCovered j := by
    rw [isColumnCovered, isColumnCovered, hc]
  constructor
  · exact hm ▸ h.independent
  · exact hm ▸ h.singlePrimes
  · simpa only [hm, hrow, hcolumn] using h.star
  · simpa only [hm, hrow, hcolumn] using h.prime
  · simpa only [hm, hcolumn] using h.column_star
  · simpa only [hm, hrow] using h.row_star
  · simpa only [hm, hcolumn] using h.leads

theorem get_eq_none (h : s.Covered) (hrow : s.isRowCovered c.row = false)
    (hcolumn : s.isColumnCovered c.column = false) : s.marks.get c = none := by
  cases hc : s.marks.get c with
  | none => rfl
  | some k =>
    cases k with
    | starred =>
      have := h.star c hc
      simp [hrow, hcolumn] at this
    | primed =>
      have := (h.prime c hc).1
      simp [hrow] at this

end Covered

section CoverStars

theorem laid_coverStars (h : s.marks.Square n) (hrows : s.coveredRows = s.coverStars.coveredRows)
    (hcolumns : s.coveredColumns = s.coverStars.coveredColumns) : s.Laid n := by
  refine ⟨h, ?_, ?_⟩
  · rw [hrows]
    exact List.length_replicate.trans h.rows
  · rw [hcolumns]
    exact ((List.length_map _).trans List.length_range).trans h.rows

theorem isRowCovered_coverStars (s : State ℚ) (i : ℕ) : s.coverStars.isRowCovered i = false := by
  rw [isRowCovered, coverStars]
  by_cases h : i < s.size
  · exact List.getD_replicate _ h
  · exact List.getD_eq_default _ _ (by simpa using h)

theorem isColumnCovered_coverStars (h : s.marks.Square n) (j : ℕ) :
    s.coverStars.isColumnCovered j = true ↔ ∃ i, s.marks.get ⟨i, j⟩ = some .starred := by
  rw [isColumnCovered, coverStars]
  constructor
  · intro hj
    by_cases hlt : j < s.size
    · rw [List.getD_eq_getElem _ _ (by simpa using hlt), List.getElem_map, List.getElem_range] at hj
      obtain ⟨i, hi⟩ := Option.isSome_iff_exists.mp hj
      exact ⟨i, Marks.inColumn?_eq_some hi⟩
    · rw [List.getD_eq_default _ _ (by simpa using hlt)] at hj
      exact absurd hj Bool.false_ne_true
  · rintro ⟨i, hi⟩
    have hlt : j < s.size := (h.lt_of_get hi).2.trans_eq h.rows.symm
    rw [List.getD_eq_getElem _ _ (by simpa using hlt), List.getElem_map, List.getElem_range]
    cases hcol : s.marks.inColumn? .starred j with
    | none => exact absurd hi (Marks.inColumn?_eq_none hcol i)
    | some => rfl

theorem covered_coverStars (hn : s.marks.Square n) (hs : s.marks.Independent)
    (hp : ∀ c, s.marks.get c ≠ some .primed) : s.coverStars.Covered where
  independent := hs
  singlePrimes i j l hj := absurd hj (hp _)
  star c hc := by
    rw [isRowCovered_coverStars, (isColumnCovered_coverStars hn _).mpr ⟨c.row, hc⟩]
    rfl
  prime c hc := absurd hc (hp c)
  column_star j hj := (isColumnCovered_coverStars hn j).mp hj
  row_star i hi := by
    rw [isRowCovered_coverStars] at hi
    exact absurd hi Bool.false_ne_true
  leads j hj := by
    refine ⟨[], .free fun i hi => ?_⟩
    rw [(isColumnCovered_coverStars hn j).mpr ⟨i, hi⟩] at hj
    exact Bool.false_ne_true hj.symm

theorem coveredColumnCount_coverStars (hn : s.marks.Square n) :
    s.coverStars.coveredColumnCount = n ↔ ∀ j < n, ∃ i, s.marks.get ⟨i, j⟩ = some .starred := by
  have hlaid : s.coverStars.Laid n := laid_coverStars hn rfl rfl
  have hcolumn (j : ℕ) : s.coverStars.isColumnCovered j = true ↔ _ :=
    isColumnCovered_coverStars hn j
  rw [coveredColumnCount, ← hlaid.columns, List.count_eq_length]
  constructor
  · intro hall j hj
    rw [← hcolumn, isColumnCovered, List.getD_eq_getElem _ _ hj]
    exact (hall _ (List.getElem_mem hj)).symm
  · intro hall b hb
    obtain ⟨j, hj, rfl⟩ := List.getElem_of_mem hb
    have := (hcolumn j).mpr (hall j hj)
    rw [isColumnCovered, List.getD_eq_getElem _ _ hj] at this
    exact this.symm

end CoverStars

section Prime

theorem get_primed (h : s.Laid n) (hrow : c.row < n) (hcolumn : c.column < n) (d : Cell) :
    (s.primed c).get d = if d = c then some .primed else s.marks.get d :=
  h.marks.get_set hrow hcolumn _ d

theorem starred_primed_iff (h : s.Laid n) (hrow : c.row < n) (hcolumn : c.column < n)
    (hc : s.marks.get c = none) (d : Cell) :
    (s.primed c).get d = some .starred ↔ s.marks.get d = some .starred := by
  rw [get_primed h hrow hcolumn]
  split_ifs with hd
  · simp [hd, hc]
  · exact Iff.rfl

theorem primed_primed_iff (h : s.Laid n) (hrow : c.row < n) (hcolumn : c.column < n) (d : Cell) :
    (s.primed c).get d = some .primed ↔ d = c ∨ s.marks.get d = some .primed := by
  rw [get_primed h hrow hcolumn]
  split_ifs with hd
  · simp [hd]
  · simp [hd]

theorem Covered.independent_primed (h : s.Covered) (hl : s.Laid n) (hrow : c.row < n)
    (hcolumn : c.column < n) (hc : s.marks.get c = none) : (s.primed c).Independent := by
  have hstar := starred_primed_iff hl hrow hcolumn hc
  constructor
  · intro i j l hj hl
    exact h.independent.row i j l ((hstar _).mp hj) ((hstar _).mp hl)
  · intro i l j hi hl
    exact h.independent.column i l j ((hstar _).mp hi) ((hstar _).mp hl)

theorem Covered.singlePrimes_primed (h : s.Covered) (hl : s.Laid n) (hrow : c.row < n)
    (hcolumn : c.column < n) (hc : s.isRowCovered c.row = false) : (s.primed c).SinglePrimes := by
  have hprime := primed_primed_iff hl hrow hcolumn
  have hnone (j : ℕ) : s.marks.get ⟨c.row, j⟩ ≠ some .primed := by
    intro hj
    rw [(h.prime _ hj).1] at hc
    exact Bool.false_ne_true hc.symm
  intro i j l hj hl
  rcases (hprime _).mp hj with rfl | hj'
  · rcases (hprime _).mp hl with heq | hl'
    · exact (congrArg Cell.column heq).symm
    · exact absurd hl' (hnone l)
  · rcases (hprime _).mp hl with rfl | hl'
    · exact absurd hj' (hnone j)
    · exact h.singlePrimes _ _ _ hj' hl'

theorem Covered.leads_primed (h : s.Covered) (hl : s.Laid n) (hrow : c.row < n)
    (hcolumn : c.column < n) (hc : s.marks.get c = none) (hj : s.isColumnCovered j = false) :
    ∃ path, Leads (s.primed c) j path := by
  obtain ⟨path, hpath⟩ := h.leads j hj
  exact ⟨path, hpath.mono (starred_primed_iff hl hrow hcolumn hc)
    fun d hd => (primed_primed_iff hl hrow hcolumn d).mpr (.inr hd)⟩

end Prime

section Adjust

theorem isRowCovered_cover (hl : s.Laid n) (hrow : c.row < n) (k i : ℕ) :
    (s.adjust (.cover c k)).isRowCovered i = if i = c.row then true else s.isRowCovered i :=
  getD_set (hrow.trans_eq hl.rows.symm) true false i

theorem isColumnCovered_cover (hl : s.Laid n) {k : ℕ} (hk : k < n) (c : Cell) (j : ℕ) :
    (s.adjust (.cover c k)).isColumnCovered j = if j = k then false else s.isColumnCovered j :=
  getD_set (hk.trans_eq hl.columns.symm) false false j

/-- Covering the row of a prime in place of the column of the star there keeps what holds. -/
theorem Covered.cover (h : s.Covered) (hl : s.Laid n) (hz : s.uncoveredZero? = some c) {k : ℕ}
    (hk : (s.primed c).inRow? .starred c.row = some k) : (s.adjust (.cover c k)).Covered := by
  obtain ⟨hrow, hcolumn, hrowCovered, hcolumnCovered, -⟩ := uncoveredZero?_eq_some hz
  rw [hl.size] at hrow hcolumn
  have hnone := h.get_eq_none hrowCovered hcolumnCovered
  have hstar := starred_primed_iff hl hrow hcolumn hnone
  have hprime := primed_primed_iff hl hrow hcolumn
  have hk := (hstar _).mp (Marks.inRow?_eq_some hk)
  have hkCovered : s.isColumnCovered k = true := by
    have := h.star _ hk
    rw [hrowCovered] at this
    simpa using this.symm
  have hrows := isRowCovered_cover hl hrow k
  have hcolumns := isColumnCovered_cover hl (hl.marks.lt_of_get hk).2 c
  refine ⟨h.independent_primed hl hrow hcolumn hnone,
    h.singlePrimes_primed hl hrow hcolumn hrowCovered, ?_, ?_, ?_, ?_, ?_⟩
  · intro d hd
    replace hd : s.marks.get d = some .starred := (hstar d).mp hd
    rw [hrows, hcolumns]
    obtain ⟨i, j⟩ := d
    -- only the star in the row of the prime goes from its column to its row
    by_cases hi : i = c.row
    · subst hi
      rw [if_pos rfl, if_pos (h.independent.row _ _ _ hd hk)]
      rfl
    · rw [if_neg hi, if_neg, h.star _ hd]
      rintro rfl
      exact hi (h.independent.column _ _ _ hd hk)
  · intro d hd
    rw [hrows, hcolumns]
    rcases (hprime d).mp hd with rfl | hd
    · rw [if_pos rfl, hcolumnCovered, ite_self]
      exact ⟨rfl, rfl⟩
    · obtain ⟨hdrow, hdcolumn⟩ := h.prime d hd
      rw [hdrow, hdcolumn, ite_self, ite_self]
      exact ⟨rfl, rfl⟩
  · intro j hj
    rw [hcolumns] at hj
    split_ifs at hj
    obtain ⟨i, hi⟩ := h.column_star j hj
    exact ⟨i, (hstar _).mpr hi⟩
  · intro i hi
    rw [hrows] at hi
    split_ifs at hi with hic
    · exact ⟨k, (hstar _).mpr (hic ▸ hk)⟩
    · obtain ⟨j, hj⟩ := h.row_star i hi
      exact ⟨j, (hstar _).mpr hj⟩
  · intro j hj
    rw [hcolumns] at hj
    split_ifs at hj with hjk
    · subst hjk
      -- from the column that is uncovered the way leads over its star to the new prime
      obtain ⟨path, hpath⟩ := h.leads_primed hl hrow hcolumn hnone hcolumnCovered
      exact ⟨_, .step ((hstar _).mpr hk) ((hprime c).mpr (.inl rfl)) hpath⟩
    · exact h.leads_primed hl hrow hcolumn hnone hj

/-- The path of an augmentation can be flipped. -/
theorem Covered.augmenting (h : s.Covered) (hl : s.Laid n) (hz : s.uncoveredZero? = some c)
    (hnone : (s.primed c).inRow? .starred c.row = none) :
    ∃ path, s.augmentingPath c = c :: path ∧ Augmenting (s.primed c) c path := by
  obtain ⟨hrow, hcolumn, hrowCovered, hcolumnCovered, -⟩ := uncoveredZero?_eq_some hz
  rw [hl.size] at hrow hcolumn
  have hfree := h.get_eq_none hrowCovered hcolumnCovered
  obtain ⟨path, hpath⟩ := h.leads_primed hl hrow hcolumn hfree hcolumnCovered
  have hindependent := h.independent_primed hl hrow hcolumn hfree
  have hsingle := h.singlePrimes_primed hl hrow hcolumn hrowCovered
  have hlength := hpath.length_le hindependent hsingle (hl.marks.set c _)
  refine ⟨path, ?_, hindependent, hsingle, (primed_primed_iff hl hrow hcolumn c).mpr (.inl rfl),
    Marks.inRow?_eq_none hnone, hpath⟩
  -- the search may take twice as many steps as there are lines, which no path exceeds
  rw [augmentingPath, hpath.alternating_eq hindependent hsingle]
  rw [hl.size]
  omega

end Adjust

end Optima.Assignment.State
