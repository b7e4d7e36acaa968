import Mathlib
import Optima.Proofs.Assignment.Covering
import Optima.Proofs.Assignment.Reduction

namespace Optima.Assignment.State

variable {s s₀ : State ℚ} {n i j : ℕ} {c d : Cell}

theorem isZero_iff : s.isZero c = true ↔ |s.reduced.get c.row c.column| < Scalar.tolerance := by
  rw [isZero, decide_eq_true_iff, Scalar.magnitude_eq_abs]

/-- No reduced cost is negative, and those of marked cells count as zero. -/
structure Priced (s : State ℚ) (n : ℕ) : Prop where
  nonneg : ∀ i < n, ∀ j < n, 0 ≤ s.reduced.get i j
  zero : ∀ c, s.marks.get c ≠ none → s.isZero c = true

structure Full (s : State ℚ) (n : ℕ) : Prop where
  independent : s.marks.Independent
  exists_star : ∀ j < n, ∃ i, s.marks.get ⟨i, j⟩ = some .starred

structure Follows (n : ℕ) (s₀ s : State ℚ) : Prop extends Laid s n where
  problem : s.problem = s₀.problem
  costs : s.costs = s₀.costs
  sized : s.reduced.Sized n n
  shifted : Matrix.Shifted n s₀.reduced s.reduced
  progress : s.progress = .complete ↔ s.phase = .complete

def PhaseFits (n : ℕ) (s : State ℚ) : Prop :=
  match s.phase with
  | .reduceRows | .reduceColumns => s.marks = Marks.blank n
  | .coverZeros => s.marks = Marks.blank n ∧ s.Priced n
  | .adjustMatrix =>
    s.Priced n ∧ s.Covered ∧ ∃ j < n, ∀ i, s.marks.get ⟨i, j⟩ ≠ some .starred
  | .findAssignment => s.Priced n ∧ s.Full n
  | .complete => s.Priced n ∧ s.Full n ∧ s.assignments = s.marks.starred ∧
    s.totalCost = (s.assignments.map fun c => s.costs.get c.row c.column).sum

theorem Priced.congr (h : s.Priced n) {t : State ℚ} (hm : t.marks = s.marks)
    (hr : t.reduced = s.reduced) : t.Priced n := by
  constructor
  · simpa only [hr] using h.nonneg
  · simpa only [hm, hr, isZero] using h.zero

theorem PhaseFits.congr (h : s.PhaseFits n) (hne : s.phase ≠ .complete) {t : State ℚ}
    (hphase : t.phase = s.phase) (hm : t.marks = s.marks) (hr : t.reduced = s.reduced)
    (hrows : t.coveredRows = s.coveredRows) (hcolumns : t.coveredColumns = s.coveredColumns) :
    t.PhaseFits n := by
  rw [PhaseFits, hphase]
  rw [PhaseFits] at h
  cases hs : s.phase with
  | reduceRows | reduceColumns =>
    rw [hs] at h
    exact hm.trans h
  | coverZeros =>
    rw [hs] at h
    exact ⟨hm.trans h.1, h.2.congr hm hr⟩
  | adjustMatrix =>
    rw [hs] at h
    exact ⟨h.1.congr hm hr, h.2.1.congr hm hrows hcolumns, hm ▸ h.2.2⟩
  | findAssignment =>
    rw [hs] at h
    exact ⟨h.1.congr hm hr, hm ▸ h.2.independent, hm ▸ h.2.exists_star⟩
  | complete => exact absurd hs hne

structure Fits (n : ℕ) (s₀ s : State ℚ) : Prop extends Follows n s₀ s where
  phase : s.PhaseFits n

theorem Follows.change (h : Follows n s₀ s) {t : State ℚ} (hlaid : t.Laid n)
    (hproblem : t.problem = s.problem) (hcosts : t.costs = s.costs) (hsized : t.reduced.Sized n n)
    (hshifted : Matrix.Shifted n s.reduced t.reduced)
    (hprogress : t.progress = .complete ↔ t.phase = .complete) : Follows n s₀ t :=
  ⟨hlaid, hproblem.trans h.problem, hcosts.trans h.costs, hsized, h.shifted.trans hshifted,
    hprogress⟩

section StarZeros

structure Stars (s : State ℚ) (n : ℕ) (m : Marks) : Prop extends Marks.Square m n where
  independent : m.Independent
  not_primed : ∀ c, m.get c ≠ some .primed
  zero : ∀ c, m.get c ≠ none → s.isZero c = true

theorem stars_blank (s : State ℚ) (n : ℕ) : s.Stars n (Marks.blank n) := by
  refine ⟨Marks.square_blank n, ⟨?_, ?_⟩, ?_, ?_⟩
  · intro i j l hj
    simp [Marks.get_blank] at hj
  · intro i l j hi
    simp [Marks.get_blank] at hi
  · intro c
    simp [Marks.get_blank]
  · intro c hc
    exact absurd (Marks.get_blank n c) hc

theorem Stars.starIfFree {m : Marks} (h : s.Stars n m) (hrow : c.row < n) (hcolumn : c.column < n) :
    s.Stars n (s.starIfFree m c) := by
  unfold State.starIfFree
  split_ifs with hfree
  · simp only [Bool.and_eq_true, Option.isNone_iff_eq_none] at hfree
    obtain ⟨⟨⟨hzero, -⟩, hfreeRow⟩, hfreeColumn⟩ := hfree
    have hget := h.toSquare.get_set hrow hcolumn (some .starred)
    refine ⟨h.toSquare.set c _, ⟨?_, ?_⟩, ?_, ?_⟩
    -- of two stars in a line both are the new one, or none is, as the line had none before
    · intro i j l hj hl
      rw [hget] at hj hl
      split_ifs at hj hl with h1 h2 h2
      · rw [← h2] at h1
        exact congrArg Cell.column h1
      · subst h1
        exact absurd hl (Marks.inRow?_eq_none hfreeRow l)
      · subst h2
        exact absurd hj (Marks.inRow?_eq_none hfreeRow j)
      · exact h.independent.row i j l hj hl
    · intro i l j hi hl
      rw [hget] at hi hl
      split_ifs at hi hl with h1 h2 h2
      · rw [← h2] at h1
        exact congrArg Cell.row h1
      · subst h1
        exact absurd hl (Marks.inColumn?_eq_none hfreeColumn l)
      · subst h2
        exact absurd hi (Marks.inColumn?_eq_none hfreeColumn i)
      · exact h.independent.column i l j hi hl
    · intro d
      rw [hget]
      split_ifs
      · simp
      · exact h.not_primed d
    · intro d hd
      rw [hget] at hd
      split_ifs at hd with hdc
      · exact hdc ▸ hzero
      · exact h.zero d hd
  · exact h

theorem stars_starZeros (hs : s.size = n) (hblank : s.marks = Marks.blank n) :
    s.Stars n s.starZeros := by
  rw [starZeros, hblank, hs]
  have hcells : ∀ c ∈ Cell.table n n, c.row < n ∧ c.column < n := fun c hc => Cell.mem_table.mp hc
  have hfold (cells : List Cell) (m : Marks) (hm : s.Stars n m)
      (hcells : ∀ c ∈ cells, c.row < n ∧ c.column < n) :
      s.Stars n (cells.foldl s.starIfFree m) := by
    induction cells generalizing m with
    | nil => exact hm
    | cons c cells ih =>
      obtain ⟨hrow, hcolumn⟩ := hcells c List.mem_cons_self
      exact ih _ (hm.starIfFree hrow hcolumn) fun d hd => hcells d (List.mem_cons_of_mem c hd)
  exact hfold _ _ (stars_blank s n) hcells

end StarZeros

section Shift

/-- The value of a shift is not negative, and no uncovered cost is smaller. -/
theorem uncoveredMinimum_spec (h : s.Priced n) (hs : s.size = n) :
    0 ≤ s.uncoveredMinimum ∧ ∀ i < n, ∀ j < n, s.isRowCovered i = false →
      s.isColumnCovered j = false → s.uncoveredMinimum ≤ s.reduced.get i j := by
  have hmem (i j : ℕ) (hi : i < n) (hj : j < n) (hrow : s.isRowCovered i = false)
      (hcolumn : s.isColumnCovered j = false) : (⟨i, j⟩ : Cell) ∈ s.uncovered := by
    refine List.mem_filter.mpr ⟨Cell.mem_table.mpr ⟨hs.symm ▸ hi, hs.symm ▸ hj⟩, ?_⟩
    rw [hrow, hcolumn]
    rfl
  rw [uncoveredMinimum]
  cases hleast : Scalar.least? (s.uncovered.map fun c => s.reduced.get c.row c.column) with
  | none =>
    rw [Scalar.least?_eq_none, List.map_eq_nil_iff] at hleast
    refine ⟨le_rfl, fun i hi j hj hrow hcolumn => ?_⟩
    exact absurd (hleast ▸ hmem i j hi hj hrow hcolumn) List.not_mem_nil
  | some x =>
    obtain ⟨hx, hle⟩ := Scalar.least?_eq_some hleast
    refine ⟨?_, fun i hi j hj hrow hcolumn => ?_⟩
    · obtain ⟨c, hc, rfl⟩ := List.mem_map.mp hx
      obtain ⟨hrow, hcolumn⟩ := Cell.mem_table.mp (List.mem_filter.mp hc).1
      exact h.nonneg _ (hrow.trans_eq hs) _ (hcolumn.trans_eq hs)
    · exact hle _ (List.mem_map.mpr ⟨_, hmem i j hi hj hrow hcolumn, rfl⟩)

/-- A shift leaves the costs of all marked cells as they are and makes none negative. -/
theorem Priced.shift (h : s.Priced n) (hl : s.Laid n) (hsized : s.reduced.Sized n n)
    (hc : s.Covered) : (s.adjust (.shift s.uncoveredMinimum)).Priced n := by
  obtain ⟨hpos, hle⟩ := uncoveredMinimum_spec h hl.size
  have hget (i j : ℕ) (hi : i < n) (hj : j < n) :
      (s.adjust (.shift s.uncoveredMinimum)).reduced.get i j = _ :=
    get_shiftCosts hsized hl.size s.uncoveredMinimum hi hj
  constructor
  · intro i hi j hj
    have h0 := h.nonneg i hi j hj
    rw [hget i j hi hj]
    cases hrow : s.isRowCovered i with
    | true =>
      cases s.isColumnCovered j with
      | true => simpa using add_nonneg h0 hpos
      | false => simpa using h0
    | false =>
      cases hcolumn : s.isColumnCovered j with
      | true => simpa using h0
      | false => simpa using hle i hi j hj hrow hcolumn
  · intro d hd
    have hzero := h.zero d hd
    obtain ⟨k, hk⟩ := Option.ne_none_iff_exists'.mp hd
    obtain ⟨hrow, hcolumn⟩ := hl.marks.lt_of_get hk
    rw [isZero_iff] at hzero ⊢
    -- a marked cell lies in one covered line exactly, where the shift cancels out
    have hlines : s.isRowCovered d.row = !s.isColumnCovered d.column := by
      cases k with
      | starred => exact hc.star d hk
      | primed =>
        obtain ⟨hdrow, hdcolumn⟩ := hc.prime d hk
        rw [hdrow, hdcolumn]
        rfl
    rw [hget _ _ hrow hcolumn, hlines]
    cases s.isColumnCovered d.column <;> simpa using hzero

end Shift

section Work

def AdjustmentFits {F : Type} [Scalar F] (s : State F) : Adjustment F → Prop
  | .cover c k => s.uncoveredZero? = some c ∧ (s.primed c).inRow? .starred c.row = some k
  | .augment c path => s.uncoveredZero? = some c ∧ (s.primed c).inRow? .starred c.row = none ∧
    path = s.augmentingPath c
  | .shift x => s.uncoveredZero? = none ∧ x = s.uncoveredMinimum

theorem adjustmentFits {F : Type} [Scalar F] (s : State F) :
    s.AdjustmentFits s.adjustment := by
  unfold adjustment
  split
  · next hnone => exact ⟨hnone, rfl⟩
  · next c hc =>
    split
    · next k hk => exact ⟨hc, hk⟩
    · next hk => exact ⟨hc, hk, rfl⟩

theorem next_eq_adjust {F : Type} [Scalar F] [Numeral F] {s : State F} (hs : s.progress ≠ .complete)
    (hphase : s.phase = .adjustMatrix) :
    s.next = ({ s with step := s.step + 1, progress := .running } : State F).adjust
      s.adjustment := by
  rw [State.next, if_neg hs, State.work]
  simp only [hphase]
  rfl

/-- The marked cells still count as zero when an uncovered zero is primed. -/
theorem Priced.zero_primed (h : s.Priced n) (hl : s.Laid n) (hz : s.uncoveredZero? = some c)
    (hd : (s.primed c).get d ≠ none) : s.isZero d = true := by
  obtain ⟨hrow, hcolumn, -, -, hzero⟩ := uncoveredZero?_eq_some hz
  rw [hl.size] at hrow hcolumn
  rw [get_primed hl hrow hcolumn] at hd
  split_ifs at hd with hdc
  · exact hdc ▸ hzero
  · exact h.zero d hd

theorem Priced.cover (h : s.Priced n) (hl : s.Laid n) (hz : s.uncoveredZero? = some c) (k : ℕ) :
    (s.adjust (.cover c k)).Priced n :=
  ⟨h.nonneg, fun _ hd => h.zero_primed hl hz hd⟩

theorem Priced.augment (h : s.Priced n) (hl : s.Laid n) (hz : s.uncoveredZero? = some c)
    {path : List Cell} (hpath : Augmenting (s.primed c) c path) :
    (s.adjust (.augment c (c :: path))).Priced n := by
  refine ⟨h.nonneg, fun d hd => ?_⟩
  have hmarks : (s.adjust (.augment c (c :: path))).marks = (s.primed c).augment (c :: path) := rfl
  have hsquare : (s.primed c).Square n := hl.marks.set c _
  rw [hmarks, hpath.get_augment hsquare] at hd
  refine h.zero_primed hl hz fun hnone => hd ?_
  rw [if_neg fun hmem => hpath.get_ne_none hmem hnone, hnone]
  rfl

theorem phaseFits_adjustMatrix (hphase : s.phase = .adjustMatrix)
    (h : s.Priced n ∧ s.Covered ∧ ∃ j < n, ∀ i, s.marks.get ⟨i, j⟩ ≠ some .starred) :
    s.PhaseFits n := by
  rw [PhaseFits, hphase]
  exact h

/-- Independent stars whose columns are covered fit the phase that the count of these calls for. -/
theorem phaseFits_of_stars (hn : s.marks.Square n) (hstars : s.marks.Independent)
    (hprimes : ∀ c, s.marks.get c ≠ some .primed) (hpriced : s.Priced n)
    (hrows : s.coveredRows = s.coverStars.coveredRows)
    (hcolumns : s.coveredColumns = s.coverStars.coveredColumns)
    (hphase : s.phase = if s.coveredColumnCount = n then .findAssignment else .adjustMatrix) :
    s.PhaseFits n := by
  have hcount := coveredColumnCount_coverStars hn
  rw [coveredColumnCount, ← hcolumns] at hcount
  rw [coveredColumnCount] at hphase
  -- every column is covered exactly if every column has a star
  by_cases hfull : s.coveredColumns.count true = n
  · rw [if_pos hfull] at hphase
    rw [PhaseFits, hphase]
    exact ⟨hpriced, hstars, hcount.mp hfull⟩
  · rw [if_neg hfull] at hphase
    rw [hcount] at hfull
    push Not at hfull
    have hcovered := covered_coverStars hn hstars hprimes
    exact phaseFits_adjustMatrix hphase ⟨hpriced, hcovered.congr rfl hrows hcolumns, hfull⟩

theorem Fits.adjust (h : Fits n s₀ s) (hphase : s.phase = .adjustMatrix)
    (hrunning : s.progress ≠ .complete) : Fits n s₀ (s.adjust s.adjustment) := by
  obtain ⟨hfollows, hfits⟩ := h
  rw [PhaseFits, hphase] at hfits
  obtain ⟨hpriced, hcovered, j, hj, hfree⟩ := hfits
  have hl := hfollows.toLaid
  have hadjustment := adjustmentFits s
  have hrefl := Matrix.Shifted.refl n s.reduced
  have hprogress : s.progress = .complete ↔ s.phase = .complete := hfollows.progress
  cases hadj : s.adjustment with
  | cover c k =>
    rw [hadj] at hadjustment
    obtain ⟨hz, hk⟩ := hadjustment
    have hlaid : (s.adjust (.cover c k)).Laid n := ⟨hl.marks.set c _,
      List.length_set.trans hl.rows, List.length_set.trans hl.columns⟩
    obtain ⟨hrow, hcolumn, hrowCovered, hcolumnCovered, -⟩ := uncoveredZero?_eq_some hz
    -- the new prime is where nothing was, so a column without a star stays one
    have hnone := hcovered.get_eq_none hrowCovered hcolumnCovered
    refine ⟨hfollows.change hlaid rfl rfl hfollows.sized hrefl hprogress, ?_⟩
    refine phaseFits_adjustMatrix hphase ⟨hpriced.cover hl hz k, hcovered.cover hl hz hk, j, hj,
      fun i => ?_⟩
    rw [hl.size] at hrow hcolumn
    exact mt (starred_primed_iff hl hrow hcolumn hnone _).mp (hfree i)
  | augment c path =>
    rw [hadj] at hadjustment
    obtain ⟨hz, hnone, rfl⟩ := hadjustment
    -- the path starts at the cell just primed, and the stars are covered anew
    obtain ⟨path, heq, hpath⟩ := hcovered.augmenting hl hz hnone
    have hsquare : (s.primed c).Square n := hl.marks.set c _
    have hmarks := hpath.square hsquare
    have hlaid : (s.adjust (.augment c (c :: path))).Laid n := laid_coverStars hmarks rfl rfl
    have hphase' : (s.adjust (.augment c (c :: path))).phase =
        if (s.adjust (.augment c (c :: path))).coveredColumnCount = s.size then .findAssignment
        else s.phase := rfl
    rw [hl.size, hphase] at hphase'
    rw [heq]
    refine ⟨hfollows.change hlaid rfl rfl hfollows.sized hrefl
      ⟨fun h => absurd h hrunning, fun h => ?_⟩, ?_⟩
    · rw [hphase'] at h
      split_ifs at h
    · exact phaseFits_of_stars hmarks (hpath.independent_augment hsquare)
        (hpath.get_ne_primed hsquare) (hpriced.augment hl hz hpath) rfl rfl hphase'
  | shift x =>
    rw [hadj] at hadjustment
    obtain ⟨-, rfl⟩ := hadjustment
    have hlaid : (s.adjust (.shift s.uncoveredMinimum)).Laid n := ⟨hl.marks, hl.rows, hl.columns⟩
    refine ⟨hfollows.change hlaid rfl rfl (shiftCosts_sized hfollows.sized _)
      (shiftCosts_shifted hfollows.sized hl.size _) hprogress, ?_⟩
    exact phaseFits_adjustMatrix hphase ⟨hpriced.shift hl hfollows.sized hcovered,
      hcovered.congr rfl rfl rfl, j, hj, hfree⟩

theorem Fits.work (h : Fits n s₀ s) (hrunning : s.progress ≠ .complete) : Fits n s₀ s.work := by
  have hfits := h.phase
  have hl := h.toLaid
  have hrefl := Matrix.Shifted.refl n s.reduced
  have hnever {t : State ℚ} (ht : t.progress = s.progress) (hne : t.phase ≠ .complete) :
      t.progress = .complete ↔ t.phase = .complete :=
    ⟨fun h => absurd (ht ▸ h) hrunning, fun h => absurd h hne⟩
  unfold State.work
  cases hphase : s.phase with
  | reduceRows =>
    rw [PhaseFits, hphase] at hfits
    exact ⟨h.change ⟨hl.marks, hl.rows, hl.columns⟩ rfl rfl (reduceRows_sized h.sized)
      (reduceRows_shifted h.sized hl.size) (hnever rfl (by simp)), hfits⟩
  | reduceColumns =>
    rw [PhaseFits, hphase] at hfits
    refine ⟨h.change ⟨hl.marks, hl.rows, hl.columns⟩ rfl rfl (reduceColumns_sized h.sized)
      (reduceColumns_shifted h.sized hl.size) (hnever rfl (by simp)), hfits, ?_, ?_⟩
    · intro i hi j hj
      obtain ⟨y, -, hy⟩ := reduceColumns_spec h.sized hl.size hj
      obtain ⟨heq, hle⟩ := hy i hi
      exact heq ▸ sub_nonneg.mpr hle
    · intro c hc
      -- nothing is marked yet
      exact absurd (by rw [hfits]; exact Marks.get_blank n c) hc
  | coverZeros =>
    rw [PhaseFits, hphase] at hfits
    obtain ⟨hblank, hpriced⟩ := hfits
    have hstars := stars_starZeros hl.size hblank
    have hlaid : s.starAndCover.Laid n := laid_coverStars hstars.toSquare rfl rfl
    have hphase' : s.starAndCover.phase = if s.starAndCover.coveredColumnCount = s.size then
        .findAssignment else .adjustMatrix := rfl
    rw [hl.size] at hphase'
    refine ⟨h.change hlaid rfl rfl h.sized hrefl
      (hnever rfl ?_), ?_⟩
    · rw [hphase']
      split_ifs <;> simp
    · exact phaseFits_of_stars hstars.toSquare hstars.independent hstars.not_primed
        ⟨hpriced.nonneg, hstars.zero⟩ rfl rfl hphase'
  | adjustMatrix => exact h.adjust hphase hrunning
  | findAssignment =>
    rw [PhaseFits, hphase] at hfits
    obtain ⟨hpriced, hfull⟩ := hfits
    exact ⟨h.change ⟨hl.marks, hl.rows, hl.columns⟩ rfl rfl h.sized hrefl
      ⟨fun _ => rfl, fun _ => rfl⟩, hpriced.congr rfl rfl, ⟨hfull.independent, hfull.exists_star⟩,
      rfl, Scalar.sum_eq _⟩
  | complete => exact absurd (h.progress.mpr hphase) hrunning

theorem Fits.running (h : Fits n s₀ s) (hcomplete : s.progress ≠ .complete) :
    Fits n s₀ { s with step := s.step + 1, progress := .running } := by
  have hphase : s.phase ≠ .complete := mt h.progress.mpr hcomplete
  have hl : Laid { s with step := s.step + 1, progress := .running } n :=
    ⟨h.toLaid.marks, h.toLaid.rows, h.toLaid.columns⟩
  have hprogress : Progress.running = .complete ↔ s.phase = .complete :=
    ⟨fun hc => by simp at hc, fun hc => absurd hc hphase⟩
  exact ⟨h.change hl rfl rfl h.sized (Matrix.Shifted.refl n _) hprogress,
    h.phase.congr hphase rfl rfl rfl rfl rfl⟩

theorem Fits.next (h : Fits n s₀ s) : Fits n s₀ s.next := by
  rw [State.next]
  split_ifs with hcomplete
  · exact h
  · exact (h.running hcomplete).work (by simp)

end Work

end Optima.Assignment.State
