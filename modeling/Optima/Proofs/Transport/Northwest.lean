import Mathlib
import Optima.Proofs.Transport.Ranking

/-!
The plan that the north-west corner rule fills. The units of all sources, one source after another,
are laid out along a line, and so are the units that the destinations want. The rule ships along
that line, so that a cell receives what the stretch of its source and that of its destination share.
-/

namespace Optima.Transport

open State

section Stretches

variable {a b t t' : ℚ}

/-- How much of the stretch from `a` to `b` lies before `t`. -/
def stretchBefore (a b t : ℚ) : ℚ := max 0 (min b t - a)

theorem stretchBefore_of_le (h : t ≤ a) : stretchBefore a b t = 0 :=
  max_eq_left (sub_nonpos.mpr ((min_le_right b t).trans h))

theorem stretchBefore_of_mem (ha : a ≤ t) (hb : t ≤ b) : stretchBefore a b t = t - a := by
  rw [stretchBefore, min_eq_right hb, max_eq_right (sub_nonneg.mpr ha)]

theorem stretchBefore_of_ge (h : b ≤ t) : stretchBefore a b t = max 0 (b - a) := by
  rw [stretchBefore, min_eq_left h]

/-- A stretch that the way from `t` to `t'` does not touch. -/
theorem stretchBefore_eq_of_apart (htt' : t ≤ t') (h : b ≤ t ∨ t' ≤ a) :
    stretchBefore a b t' = stretchBefore a b t := by
  rcases h with h | h
  · rw [stretchBefore_of_ge h, stretchBefore_of_ge (h.trans htt')]
  · rw [stretchBefore_of_le h, stretchBefore_of_le (htt'.trans h)]

end Stretches

section Amounts

variable {xs left left' : List ℚ} {i k : ℕ} {t x : ℚ}

/-- What the first `k` amounts of a list come to. -/
def upTo (xs : List ℚ) (k : ℕ) : ℚ := (xs.take k).sum

theorem upTo_succ (xs : List ℚ) (k : ℕ) : upTo xs (k + 1) = upTo xs k + xs.getD k 0 := by
  rw [upTo, List.take_add_one, List.sum_append, List.getD_eq_getElem?_getD, upTo]
  cases xs[k]? <;> simp

theorem monotone_upTo (h : ∀ x ∈ xs, 0 ≤ x) : Monotone (upTo xs) := by
  refine monotone_nat_of_le_succ fun k => ?_
  rw [upTo_succ]
  exact le_add_of_nonneg_right (getD_of_forall_mem h le_rfl k)

theorem upTo_nonneg (hxs : Monotone (upTo xs)) (k : ℕ) : 0 ≤ upTo xs k := hxs (Nat.zero_le k)

theorem upTo_apart (hxs : Monotone (upTo xs)) (hne : k ≠ i) {t' : ℚ} (ha : upTo xs i ≤ t)
    (hb : t' ≤ upTo xs (i + 1)) : upTo xs (k + 1) ≤ t ∨ t' ≤ upTo xs k := by
  rcases hne.lt_or_gt with hlt | hlt
  · exact .inl ((hxs hlt).trans ha)
  · exact .inr (hb.trans (hxs hlt))

/-- What is left of some amounts after `t` units, taken one amount after another. -/
def LeftAfter (xs : List ℚ) (t : ℚ) (left : List ℚ) : Prop :=
  ∀ i, left.getD i 0 =
    upTo xs (i + 1) - upTo xs i - stretchBefore (upTo xs i) (upTo xs (i + 1)) t

namespace LeftAfter

theorem zero (hxs : Monotone (upTo xs)) : LeftAfter xs 0 xs := by
  intro i
  rw [stretchBefore_of_le (upTo_nonneg hxs i), upTo_succ]
  ring

theorem upTo_le (h : LeftAfter xs t left) (ht : 0 ≤ t) (hzero : ∀ i < k, left.getD i 0 = 0) :
    upTo xs k ≤ t := by
  induction k with
  | zero => exact ht
  | succ k ih =>
    have hk := ih fun i hi => hzero i (hi.trans k.lt_succ_self)
    have hleft := h k
    rw [hzero k k.lt_succ_self] at hleft
    by_contra! hlt
    rw [stretchBefore_of_mem hk hlt.le] at hleft
    linarith

theorem lt_upTo (h : LeftAfter xs t left) (hpos : 0 < left.getD i 0) : t < upTo xs (i + 1) := by
  by_contra! hle
  rw [h i, stretchBefore_of_ge hle] at hpos
  linarith [le_max_right 0 (upTo xs (i + 1) - upTo xs i)]

theorem getD_eq (h : LeftAfter xs t left) (ha : upTo xs i ≤ t) (hb : t ≤ upTo xs (i + 1)) :
    left.getD i 0 = upTo xs (i + 1) - t := by
  rw [h i, stretchBefore_of_mem ha hb]
  ring

/-- Taking more of the amount that is next, up to all that is left of it. -/
theorem take (h : LeftAfter xs t left) (hxs : Monotone (upTo xs)) (hx : 0 ≤ x)
    (ha : upTo xs i ≤ t) (hb : t + x ≤ upTo xs (i + 1))
    (hleft : ∀ k, left'.getD k 0 = left.getD k 0 - if i = k then x else 0) :
    LeftAfter xs (t + x) left' := by
  have htx : t ≤ t + x := le_add_of_nonneg_right hx
  intro k
  rw [hleft k]
  split_ifs with hik
  · subst hik
    rw [h.getD_eq ha (htx.trans hb), stretchBefore_of_mem (ha.trans htx) hb]
    ring
  · rw [h k, stretchBefore_eq_of_apart htx (upTo_apart hxs (Ne.symm hik) ha hb), sub_zero]

end LeftAfter

end Amounts

variable {p : TransportProblem ℚ} {s : State ℚ} {c : Cell} {reason : Reason ℚ} {t : ℚ}

/-- Where the stretches of the source and of the destination of a cell have both begun. -/
def cellStart (p : TransportProblem ℚ) (c : Cell) : ℚ :=
  max (upTo p.supply c.row) (upTo p.demand c.column)

def cellEnd (p : TransportProblem ℚ) (c : Cell) : ℚ :=
  min (upTo p.supply (c.row + 1)) (upTo p.demand (c.column + 1))

structure ShippedUpTo (p : TransportProblem ℚ) (s : State ℚ) (t : ℚ) : Prop where
  nonneg : 0 ≤ t
  supply : LeftAfter p.supply t s.remainingSupply
  demand : LeftAfter p.demand t s.remainingDemand
  amount : ∀ c, s.plan.amount c = stretchBefore (cellStart p c) (cellEnd p c) t

/-- Before the north-west corner nothing is left. -/
theorem spent_before_northwest (h : s.select? .northwestCorner = some (c, reason)) :
    (∀ i < c.row, s.remainingSupply.getD i 0 ≤ Scalar.tolerance) ∧
      ∀ j < c.column, s.remainingDemand.getD j 0 ≤ Scalar.tolerance := by
  obtain ⟨hrow, hcolumn⟩ := mem_availableCells.mp (mem_of_select? h)
  constructor
  · intro i hi
    by_contra! hlt
    have hmem := mem_availableSources.mpr ⟨hi.trans (mem_availableSources.mp hrow).1, hlt⟩
    have hplace := place_le_of_northwest (d := ⟨i, c.column⟩) h
      (cellOpen_iff.mpr (mem_availableCells.mpr ⟨hmem, hcolumn⟩))
    exact hplace.not_gt (Cell.place_lt_place.mpr (.inl hi))
  · intro j hj
    by_contra! hlt
    have hmem := mem_availableDestinations.mpr
      ⟨hj.trans (mem_availableDestinations.mp hcolumn).1, hlt⟩
    have hplace := place_le_of_northwest (d := ⟨c.row, j⟩) h
      (cellOpen_iff.mpr (mem_availableCells.mpr ⟨hrow, hmem⟩))
    exact hplace.not_gt (Cell.place_lt_place.mpr (.inr ⟨rfl, hj⟩))

namespace ShippedUpTo

section Step

variable (h : ShippedUpTo p s t) (hs : Fits p s) (hw : Whole s)
  (hselect : s.select? .northwestCorner = some (c, reason))
include h hs hw hselect

/-- The rule ships where it stopped: in the stretches of the cell that it chooses. -/
theorem mem_stretch : cellStart p c ≤ t ∧ t < cellEnd p c := by
  obtain ⟨hi, hj⟩ := mem_availableCells.mp (mem_of_select? hselect)
  obtain ⟨hrows, hcolumns⟩ := spent_before_northwest hselect
  have hrow := h.supply.upTo_le h.nonneg fun i hi =>
    eq_zero_of_filter_eq_nil hs.supplyNonneg hw.supply hrows i (Finset.mem_range.mpr hi)
  have hcolumn := h.demand.upTo_le h.nonneg fun j hj =>
    eq_zero_of_filter_eq_nil hs.demandNonneg hw.demand hcolumns j (Finset.mem_range.mpr hj)
  refine ⟨max_le hrow hcolumn, lt_min (h.supply.lt_upTo ?_) (h.demand.lt_upTo ?_)⟩
  · exact Scalar.tolerance_pos.trans (mem_availableSources.mp hi).2
  · exact Scalar.tolerance_pos.trans (mem_availableDestinations.mp hj).2

theorem add_capacity : t + s.capacity c = cellEnd p c := by
  obtain ⟨hstart, hend⟩ := h.mem_stretch hs hw hselect
  rw [Fits.capacity_eq, h.supply.getD_eq ((le_max_left _ _).trans hstart)
      (hend.le.trans (min_le_left _ _)), h.demand.getD_eq ((le_max_right _ _).trans hstart)
      (hend.le.trans (min_le_right _ _)), min_sub_sub_right, cellEnd]
  ring

theorem ship (hsupply : Monotone (upTo p.supply)) (hdemand : Monotone (upTo p.demand)) :
    ShippedUpTo p (s.ship c (s.capacity c)) (t + s.capacity c) := by
  have hc := mem_of_select? hselect
  obtain ⟨hstart, hend⟩ := h.mem_stretch hs hw hselect
  have htx := h.add_capacity hs hw hselect
  have hle : t ≤ t + s.capacity c := htx ▸ hend.le
  have hx : 0 ≤ s.capacity c := nonneg_of_le_add_right hle
  have hrow := (le_max_left _ _).trans hstart
  have hcolumn := (le_max_right _ _).trans hstart
  have hrowEnd := htx.trans_le (min_le_left _ _)
  have hcolumnEnd := htx.trans_le (min_le_right _ _)
  refine ⟨h.nonneg.trans hle, h.supply.take hsupply hx hrow hrowEnd (hs.remainingSupply_ship hc),
    h.demand.take hdemand hx hcolumn hcolumnEnd (hs.remainingDemand_ship hc), fun d => ?_⟩
  rw [hs.amount_ship, h.amount]
  split_ifs with hcd
  · subst hcd
    rw [stretchBefore_of_mem hstart hend.le, stretchBefore_of_mem (hstart.trans hle) htx.le]
    ring
  · rw [add_zero, stretchBefore_eq_of_apart hle]
    -- another cell has another source or another destination
    by_cases hr : d.row = c.row
    · have hne : d.column ≠ c.column := fun hcol => hcd (by cases c; cases d; simp_all)
      exact (upTo_apart hdemand hne hcolumn hcolumnEnd).imp (min_le_right _ _).trans
        fun hle => hle.trans (le_max_right _ _)
    · exact (upTo_apart hsupply hr hrow hrowEnd).imp (min_le_left _ _).trans
        fun hle => hle.trans (le_max_left _ _)

end Step

theorem allocate (h : ShippedUpTo p s t) (hs : Fits p s) (hw : Whole s)
    (hsupply : Monotone (upTo p.supply)) (hdemand : Monotone (upTo p.demand)) :
    ∃ t', ShippedUpTo p (s.allocate .northwestCorner) t' := by
  rcases s.allocate_cases_select .northwestCorner with ⟨-, heq⟩ | ⟨-, k, e, d, heq⟩ |
    ⟨c, reason, hselect, k, r, e, d, -, heq⟩
  · rw [heq]
    exact ⟨t, h⟩
  · rw [heq]
    exact ⟨t, { h with }⟩
  · rw [heq]
    exact ⟨_, { h.ship hs hw hselect hsupply hdemand with }⟩

theorem allocateAll (h : ShippedUpTo p s t) (hs : Fits p s) (hw : Whole s)
    (hsupply : Monotone (upTo p.supply)) (hdemand : Monotone (upTo p.demand)) (k : ℕ) :
    ∃ t', ShippedUpTo p (s.allocateAll (List.replicate k .northwestCorner)) t' := by
  induction k generalizing s t with
  | zero => exact ⟨t, h⟩
  | succ k ih =>
    obtain ⟨t', h'⟩ := h.allocate hs hw hsupply hdemand
    exact ih h' (hs.allocate _) (hw.allocate hs _)

/-- When nothing is left of the sources, every cell has what its stretches share. -/
theorem amount_eq (h : ShippedUpTo p s t) (hzero : ∀ i, s.remainingSupply.getD i 0 = 0) (c : Cell) :
    s.plan.amount c = max 0 (cellEnd p c - cellStart p c) := by
  rw [h.amount, stretchBefore_of_ge]
  exact (min_le_left _ _).trans (h.supply.upTo_le h.nonneg fun i _ => hzero i)

end ShippedUpTo

theorem shippedUpTo_firstState (hsupply : Monotone (upTo p.supply))
    (hdemand : Monotone (upTo p.demand)) (m : InitialMethod) :
    ShippedUpTo p (firstState p m) 0 := by
  refine ⟨le_rfl, .zero hsupply, .zero hdemand, fun c => ?_⟩
  exact (stretchBefore_of_le ((upTo_nonneg hsupply _).trans (le_max_left _ _))).symm

theorem after_eq_allocateAll {m : InitialMethod} (hmethod : s.method = .initial m) (k : ℕ) :
    Solver.after k s = .ok (s.allocateAll (List.replicate k m)) := by
  induction k generalizing s with
  | zero => rfl
  | succ k ih =>
    rw [Solver.after, step_initial hmethod]
    exact ih ((method_allocate s m).trans hmethod)

/-- The north-west corner rule fills a plan in one step less than there are sources and
destinations, and then every cell ships what the stretches of its source and its destination share,
whatever the costs. -/
theorem northwest_amount_eq {s₀ : State ℚ} (hstart : start p .northwestCorner = .ok s₀)
    (hwhole : p.Whole) :
    (∃ k ≤ p.balance.sourceCount + p.balance.destinationCount - 1, ∃ s,
      Solver.after k s₀ = .ok s ∧ s.progress = .complete) ∧
    ∀ s, Solver.Reaches s₀ s → s.progress = .complete → ∀ c, s.plan.amount c =
      max 0 (min (upTo p.balance.supply (c.row + 1)) (upTo p.balance.demand (c.column + 1)) -
        max (upTo p.balance.supply c.row) (upTo p.balance.demand c.column)) := by
  obtain ⟨hp, rfl⟩ := start_eq_ok hstart
  obtain ⟨hm, hn, hnonneg⟩ := TransportProblem.fault?_eq_none hp
  have hm := hm.trans_le p.sourceCount_le_balance
  have hn := hn.trans_le p.destinationCount_le_balance
  have hnonneg := TransportProblem.nonneg_balance hnonneg
  have hsupply : Monotone (upTo p.balance.supply) :=
    monotone_upTo fun x hx => hnonneg x (List.mem_append_left _ hx)
  have hdemand : Monotone (upTo p.balance.demand) :=
    monotone_upTo fun x hx => hnonneg x (List.mem_append_right _ hx)
  have hfirst := depleted_firstState hm hnonneg .northwestCorner
  have hwhole' := Whole.firstState hwhole.balance .northwestCorner
  constructor
  · refine ⟨_, le_rfl, _, after_eq_allocateAll rfl _, ?_⟩
    refine (hfirst.allocateAll _).complete p.abs_surplus_balance_le ?_ ?_
    all_goals
      rw [List.length_replicate]
      omega
  · intro s hrun hcomplete c
    obtain ⟨k, rfl⟩ := exists_allocateAll_of_reaches rfl hrun
    have hfits := (hfirst.allocateAll (List.replicate k .northwestCorner)).fits
    obtain ⟨hzero, -⟩ := hfits.remaining_eq_zero (hwhole'.allocateAll hfirst.fits _)
      hwhole.surplus_balance hcomplete
    obtain ⟨t, ht⟩ := (shippedUpTo_firstState hsupply hdemand .northwestCorner).allocateAll
      hfirst.fits hwhole' hsupply hdemand k
    refine ht.amount_eq (fun i => ?_) c
    by_cases hi : i < p.balance.sourceCount
    · exact hzero i (Finset.mem_range.mpr hi)
    · exact List.getD_eq_default _ _ (hfits.supplyLength ▸ not_lt.mp hi)

/-- Nothing at the second source, and the first destination takes all of the first source. -/
def gapDepots : TransportProblem ℚ where
  supply := [3, 0, 4]
  demand := [3, 2]
  costs := [[4, 1], [1, 5], [2, 2]]
  supplyLabels := []
  demandLabels := []

theorem northwest_of_gapDepots : ∃ s₀ s : State ℚ, start gapDepots .northwestCorner = .ok s₀ ∧
    gapDepots.Whole ∧ Solver.Reaches s₀ s ∧ s.progress = .complete ∧ s.plan.amount ⟨2, 2⟩ = 2 := by
  have hstart : start gapDepots .northwestCorner =
      .ok (firstState gapDepots.balance .northwestCorner) :=
    start_eq_firstState (by decide +kernel)
  have hwhole : gapDepots.Whole := by
    intro x hx
    fin_cases hx <;> exact intCast_mem _ _
  obtain ⟨⟨k, -, s, hafter, hcomplete⟩, hamount⟩ := northwest_amount_eq hstart hwhole
  have hrun := Solver.reaches_of_after hafter
  refine ⟨_, s, hstart, hwhole, hrun, hcomplete, (hamount s hrun hcomplete ⟨2, 2⟩).trans ?_⟩
  decide +kernel

end Optima.Transport
