import Mathlib
import Optima.Proofs.Transport.Filling

namespace Optima

/-- Values of sources, on the left, and destinations that are the same across every cell. -/
def Agree (f : ℕ ⊕ ℕ → ℚ) (cells : List Cell) : Prop :=
  ∀ c ∈ cells, f (.inl c.row) = f (.inr c.column)

theorem Agree.mono {f : ℕ ⊕ ℕ → ℚ} {cells others : List Cell} (h : Agree f cells)
    (hsubset : others ⊆ cells) : Agree f others := fun c hc => h c (hsubset hc)

def TransportProblem.lines (p : TransportProblem ℚ) : Finset (ℕ ⊕ ℕ) :=
  (Finset.range p.sourceCount).disjSum (Finset.range p.destinationCount)

theorem TransportProblem.inl_mem_lines {p : TransportProblem ℚ} {i : ℕ} :
    Sum.inl i ∈ p.lines ↔ i < p.sourceCount := by
  rw [lines, Finset.inl_mem_disjSum, Finset.mem_range]

theorem TransportProblem.inr_mem_lines {p : TransportProblem ℚ} {j : ℕ} :
    Sum.inr j ∈ p.lines ↔ j < p.destinationCount := by
  rw [lines, Finset.inr_mem_disjSum, Finset.mem_range]

theorem TransportProblem.card_lines (p : TransportProblem ℚ) :
    p.lines.card = p.sourceCount + p.destinationCount := by
  rw [lines, Finset.card_disjSum, Finset.card_range, Finset.card_range]

namespace Transport

open State

variable {p : TransportProblem ℚ} {s t : State ℚ} {m : InitialMethod} {c : Cell} {x : ℚ} {k n : ℕ}
  {roots : Finset (ℕ ⊕ ℕ)} {l l' : ℕ ⊕ ℕ}

namespace State

def remaining (s : State ℚ) : ℕ ⊕ ℕ → ℚ :=
  Sum.elim (fun i => s.remainingSupply.getD i 0) fun j => s.remainingDemand.getD j 0

theorem allocate_of_complete (h : s.progress = .complete) (m : InitialMethod) :
    s.allocate m = s := by
  rw [allocate, if_pos h]

theorem isFilled_allocate (h : (s.allocate m).progress ≠ .complete) :
    (s.allocate m).isFilled = false := by
  unfold allocate at h ⊢
  split_ifs at h ⊢ with hcomplete
  · exact absurd hcomplete h
  · cases hfilling : s.filling m with
    | finished => simp [hfilling, afterFilling] at h
    | stuck => simp [hfilling, afterFilling] at h
    | ship c reason x =>
      rw [hfilling] at h
      simp only [afterFilling] at h ⊢
      exact Bool.eq_false_iff.mpr fun hfilled => h (if_pos hfilled)

def allocateAll (methods : List InitialMethod) (s : State ℚ) : State ℚ :=
  methods.foldl (fun s m => s.allocate m) s

theorem allocateAll_append (methods others : List InitialMethod) (s : State ℚ) :
    s.allocateAll (methods ++ others) = (s.allocateAll methods).allocateAll others :=
  List.foldl_append

end State

theorem Fits.remaining_nonneg (h : Fits p s) : ∀ l, 0 ≤ s.remaining l
  | .inl i => h.supplyNonneg i
  | .inr j => h.demandNonneg j

/-- What holds of what is left of every line holds of all that is left. -/
theorem Fits.forall_mem_remaining (h : Fits p s) {P : ℚ → Prop}
    (hP : ∀ l ∈ p.lines, P (s.remaining l)) :
    ∀ x ∈ s.remainingSupply ++ s.remainingDemand, P x := by
  intro x hx
  rcases List.mem_append.mp hx with hx | hx
  · obtain ⟨i, hi, rfl⟩ := List.getElem_of_mem hx
    rw [← List.getD_eq_getElem _ 0 hi]
    exact hP (.inl i) (TransportProblem.inl_mem_lines.mpr (h.supplyLength ▸ hi))
  · obtain ⟨j, hj, rfl⟩ := List.getElem_of_mem hx
    rw [← List.getD_eq_getElem _ 0 hj]
    exact hP (.inr j) (TransportProblem.inr_mem_lines.mpr (h.demandLength ▸ hj))

theorem Fits.remaining_ship (h : Fits p s) (hc : c ∈ s.availableCells) (l : ℕ ⊕ ℕ) :
    (s.ship c x).remaining l =
      s.remaining l - if l = .inl c.row ∨ l = .inr c.column then x else 0 := by
  cases l with
  | inl i =>
    refine (h.remainingSupply_ship hc i).trans ?_
    simp only [Sum.inl.injEq, reduceCtorEq, or_false, eq_comm]
    rfl
  | inr j =>
    refine (h.remainingDemand_ship hc j).trans ?_
    simp only [Sum.inr.injEq, reduceCtorEq, false_or, eq_comm]
    rfl

/-- The line with less left ships it all. -/
theorem Fits.exists_spent_ship (h : Fits p s) (hc : c ∈ s.availableCells) :
    (s.ship c (s.capacity c)).remaining (.inl c.row) = 0 ∨
      (s.ship c (s.capacity c)).remaining (.inr c.column) = 0 := by
  rcases min_choice (s.remaining (.inl c.row)) (s.remaining (.inr c.column)) with hmin | hmin
  · left
    rw [h.remaining_ship hc, if_pos (.inl rfl), sub_eq_zero, ← hmin]
    exact (Fits.capacity_eq s c).symm
  · right
    rw [h.remaining_ship hc, if_pos (.inr rfl), sub_eq_zero, ← hmin]
    exact (Fits.capacity_eq s c).symm

theorem Fits.mem_cells_ship (h : Fits p s) (hx : 0 < x) : c ∈ (s.ship c x).plan.cells := by
  by_contra hc
  have hamount := h.amount_ship c x c
  rw [Plan.amount_eq_zero hc, if_pos rfl] at hamount
  linarith [h.amount_nonneg c]

/-- Sources and destinations after `k` shipments such that all others are used up, and tied by the
cells of the plan to one of these. -/
structure Rooted (p : TransportProblem ℚ) (s : State ℚ) (k : ℕ) (roots : Finset (ℕ ⊕ ℕ)) :
    Prop where
  nonempty : roots.Nonempty
  subset : roots ⊆ p.lines
  count : k + roots.card = p.sourceCount + p.destinationCount
  length : s.plan.length ≤ k
  spent : ∀ l ∉ roots, s.remaining l = 0
  ties : ∀ f, Agree f s.plan.cells → (∀ l ∈ roots, f l = 0) → ∀ l ∈ p.lines, f l = 0

namespace Rooted

theorem erase (h : Rooted p s k roots) (hl : l ∈ roots) (hl' : l' ∈ roots) (hne : l' ≠ l)
    (hlength : t.plan.length ≤ k + 1) (hspent : t.remaining l = 0)
    (hothers : ∀ a ∉ roots, t.remaining a = 0) (hcells : s.plan.cells ⊆ t.plan.cells)
    (htie : ∀ f, Agree f t.plan.cells → f l = f l') : Rooted p t (k + 1) (roots.erase l) := by
  refine ⟨⟨l', Finset.mem_erase.mpr ⟨hne, hl'⟩⟩, (Finset.erase_subset _ _).trans h.subset, ?_,
    hlength, fun a ha => ?_, fun f hf hroots => ?_⟩
  · have hpos := Finset.card_pos.mpr h.nonempty
    have hcount := h.count
    rw [Finset.card_erase_of_mem hl]
    omega
  · by_cases hal : a = l
    · rw [hal, hspent]
    · exact hothers a fun hmem => ha (Finset.mem_erase.mpr ⟨hal, hmem⟩)
  · refine h.ties f (hf.mono hcells) fun a ha => ?_
    by_cases hal : a = l
    · rw [hal, htie f hf]
      exact hroots l' (Finset.mem_erase.mpr ⟨hne, hl'⟩)
    · exact hroots a (Finset.mem_erase.mpr ⟨hal, ha⟩)

theorem mem_of_remaining_pos (h : Rooted p s k roots) (hpos : 0 < s.remaining l) : l ∈ roots := by
  by_contra hl
  exact hpos.ne' (h.spent l hl)

theorem ship (h : Rooted p s k roots) (hs : Fits p s) (hc : c ∈ s.availableCells) :
    ∃ roots', Rooted p (s.ship c (s.capacity c)) (k + 1) roots' := by
  obtain ⟨hi, hj⟩ := mem_availableCells.mp hc
  have hrow : Sum.inl c.row ∈ roots :=
    h.mem_of_remaining_pos (Scalar.tolerance_pos.trans (mem_availableSources.mp hi).2)
  have hcolumn : Sum.inr c.column ∈ roots :=
    h.mem_of_remaining_pos (Scalar.tolerance_pos.trans (mem_availableDestinations.mp hj).2)
  have hlength := (hs.length_ship c (s.capacity c)).trans (Nat.succ_le_succ h.length)
  have hothers (a) (ha : a ∉ roots) : (s.ship c (s.capacity c)).remaining a = 0 := by
    rw [hs.remaining_ship hc, h.spent a ha, if_neg, sub_zero]
    rintro (rfl | rfl)
    · exact ha hrow
    · exact ha hcolumn
  have htie (f) (hf : Agree f (s.ship c (s.capacity c)).plan.cells) :
      f (.inl c.row) = f (.inr c.column) :=
    hf c (hs.mem_cells_ship (Scalar.tolerance_pos.trans (Fits.tolerance_lt_capacity hc)))
  rcases hs.exists_spent_ship hc with hspent | hspent
  · exact ⟨_, h.erase hrow hcolumn Sum.inr_ne_inl hlength hspent hothers (hs.changed c _).subset
      htie⟩
  · exact ⟨_, h.erase hcolumn hrow Sum.inl_ne_inr hlength hspent hothers (hs.changed c _).subset
      fun f hf => (htie f hf).symm⟩

theorem allocate (h : Rooted p s k roots) (hs : Fits p s) (m : InitialMethod) :
    ∃ k' roots', Rooted p (s.allocate m) k' roots' ∧
      ((s.allocate m).progress ≠ .complete → k' = k + 1) := by
  rcases s.allocate_cases m with ⟨hcomplete, heq⟩ | ⟨-, j, e, d, heq⟩ | ⟨c, hc, j, r, e, d, -, heq⟩
  · rw [heq]
    exact ⟨k, roots, h, fun hnot => absurd hcomplete hnot⟩
  · rw [heq]
    exact ⟨k, roots, { h with }, fun hnot => absurd rfl hnot⟩
  · obtain ⟨roots', h⟩ := h.ship hs hc
    rw [heq]
    exact ⟨k + 1, roots', { h with }, fun _ => rfl⟩

/-- After a shipment for every line but one, a single line is left. -/
theorem eq_singleton (h : Rooted p s k roots) (hk : p.sourceCount + p.destinationCount ≤ k + 1) :
    ∃ root, roots = {root} := by
  have hpos := Finset.card_pos.mpr h.nonempty
  have hcount := h.count
  exact Finset.card_eq_one.mp (by omega)

theorem isFilled (h : Rooted p s k roots) (hs : Fits p s) (hp : |p.surplus| ≤ Scalar.tolerance)
    (hk : p.sourceCount + p.destinationCount ≤ k + 1) : s.isFilled = true := by
  obtain ⟨root, rfl⟩ := h.eq_singleton hk
  have hroot := h.subset (Finset.mem_singleton_self root)
  have hzero (l) (hl : l ≠ root) : s.remaining l = 0 :=
    h.spent l (Finset.notMem_singleton.mpr hl)
  have hsum : ∑ i ∈ Finset.range p.sourceCount, s.remaining (.inl i) =
      ∑ j ∈ Finset.range p.destinationCount, s.remaining (.inr j) + p.surplus := hs.sum_remaining
  obtain ⟨hneg, hpos⟩ := abs_le.mp hp
  refine List.all_eq_true.mpr fun x hx =>
    decide_eq_true (hs.forall_mem_remaining (P := (· ≤ Scalar.tolerance)) (fun l _ => ?_) x hx)
  by_cases hl : l = root
  · subst hl
    cases l with
    | inl i =>
      rw [Finset.sum_eq_single_of_mem i (Finset.inl_mem_disjSum.mp hroot)
          fun a _ ha => hzero _ (by simpa using ha),
        Finset.sum_eq_zero fun j _ => hzero _ Sum.inr_ne_inl, zero_add] at hsum
      exact hsum.trans_le hpos
    | inr j =>
      rw [Finset.sum_eq_zero fun i _ => hzero _ Sum.inl_ne_inr,
        Finset.sum_eq_single_of_mem j (Finset.inr_mem_disjSum.mp hroot)
          fun a _ ha => hzero _ (by simpa using ha)] at hsum
      linarith
  · rw [hzero l hl]
    exact Scalar.tolerance_pos.le

end Rooted

theorem rooted_firstState (hm : 0 < p.sourceCount) (method : InitialMethod) :
    Rooted p (firstState p method) 0 p.lines := by
  refine ⟨?_, Finset.Subset.refl _, (Nat.zero_add _).trans p.card_lines, le_rfl, fun l hl => ?_,
    fun f _ hf => hf⟩
  · rw [← Finset.card_pos, p.card_lines]
    exact Nat.add_pos_left hm _
  · cases l with
    | inl i =>
      rw [TransportProblem.inl_mem_lines, not_lt] at hl
      exact List.getD_eq_default _ _ hl
    | inr j =>
      rw [TransportProblem.inr_mem_lines, not_lt] at hl
      exact List.getD_eq_default _ _ hl

structure Depleted (p : TransportProblem ℚ) (n : ℕ) (s : State ℚ) : Prop where
  fits : Fits p s
  rooted : ∃ k roots, Rooted p s k roots ∧ (s.progress ≠ .complete → k = n)
  unfilled : s.progress ≠ .complete → n ≠ 0 → s.isFilled = false

namespace Depleted

theorem allocate (h : Depleted p n s) (m : InitialMethod) : Depleted p (n + 1) (s.allocate m) := by
  obtain ⟨k, roots, hrooted, hk⟩ := h.rooted
  obtain ⟨k', roots', hrooted', hk'⟩ := hrooted.allocate h.fits m
  refine ⟨h.fits.allocate m, ⟨k', roots', hrooted', fun hnot => ?_⟩,
    fun hnot _ => isFilled_allocate hnot⟩
  rw [hk' hnot, hk fun hcomplete => hnot ?_]
  rw [allocate_of_complete hcomplete, hcomplete]

theorem allocateAll (h : Depleted p n s) (methods : List InitialMethod) :
    Depleted p (n + methods.length) (s.allocateAll methods) := by
  induction methods generalizing n s with
  | nil => exact h
  | cons m methods ih =>
    rw [List.length_cons, add_comm methods.length, ← add_assoc]
    exact ih (h.allocate m)

/-- One step less than there are lines completes a plan. -/
theorem complete (h : Depleted p n s) (hp : |p.surplus| ≤ Scalar.tolerance)
    (hn : p.sourceCount + p.destinationCount ≤ n + 1) (hpos : n ≠ 0) :
    s.progress = .complete := by
  by_contra hnot
  obtain ⟨k, roots, hrooted, hk⟩ := h.rooted
  have hfilled := hrooted.isFilled h.fits hp (hk hnot ▸ hn)
  rw [h.unfilled hnot hpos] at hfilled
  exact Bool.false_ne_true hfilled

end Depleted

theorem depleted_firstState (hm : 0 < p.sourceCount)
    (hnonneg : ∀ x ∈ p.supply ++ p.demand, 0 ≤ x) (method : InitialMethod) :
    Depleted p 0 (firstState p method) :=
  ⟨fits_firstState hm hnonneg method, ⟨0, p.lines, rooted_firstState hm method, fun _ => rfl⟩,
    fun _ h => absurd rfl h⟩

theorem exists_allocateAll_of_reaches {s₀ : State ℚ} (hmethod : s₀.method = .initial m)
    (hrun : Solver.Reaches s₀ s) : ∃ k, s = s₀.allocateAll (List.replicate k m) := by
  -- the method decides what a step does, so the invariant has to carry it
  suffices h : s.method = .initial m ∧ ∃ k, s = s₀.allocateAll (List.replicate k m) from h.2
  refine hrun.invariant (P := fun t => t.method = .initial m ∧
    ∃ k, t = s₀.allocateAll (List.replicate k m)) ⟨hmethod, 0, rfl⟩ fun t t' ht hstep => ?_
  obtain ⟨hmethod, k, hk⟩ := ht
  obtain rfl := Except.ok.inj ((step_initial hmethod).symm.trans hstep)
  refine ⟨(method_allocate t m).trans hmethod, k + 1, ?_⟩
  rw [List.replicate_succ', allocateAll_append, ← hk]
  rfl

theorem Whole.allocateAll (hw : Whole s) (h : Fits p s) (methods : List InitialMethod) :
    Whole (s.allocateAll methods) := by
  induction methods generalizing s with
  | nil => exact hw
  | cons m methods ih => exact ih (hw.allocate h m) (h.allocate m)

section Complete

/-- Where one side has little left at every line, and both sides have the same but for little, the
other side has little left as well. -/
theorem le_of_abs_sub_le {a b : ℕ → ℚ} {m n : ℕ} (ha : ∀ i < m, a i ≤ Scalar.tolerance)
    (hb : ∀ j, 0 ≤ b j)
    (h : |∑ i ∈ Finset.range m, a i - ∑ j ∈ Finset.range n, b j| ≤ Scalar.tolerance) :
    ∀ j < n, b j ≤ (m + 1) * Scalar.tolerance := by
  intro j hj
  have hsum : ∑ i ∈ Finset.range m, a i ≤ m * Scalar.tolerance := by
    refine (Finset.sum_le_card_nsmul _ _ _ fun i hi => ha i (Finset.mem_range.mp hi)).trans_eq ?_
    rw [Finset.card_range, nsmul_eq_mul]
  calc b j ≤ ∑ j ∈ Finset.range n, b j :=
        Finset.single_le_sum (fun j _ => hb j) (Finset.mem_range.mpr hj)
    _ ≤ ∑ i ∈ Finset.range m, a i + Scalar.tolerance := by linarith [(abs_le.mp h).1]
    _ ≤ (m + 1) * Scalar.tolerance := by linarith

theorem Fits.remaining_le (h : Fits p s) (hm : 0 < p.sourceCount) (hn : 0 < p.destinationCount)
    (hp : |p.surplus| ≤ Scalar.tolerance) (hs : s.progress = .complete) :
    ∀ l ∈ p.lines, s.remaining l ≤ (p.sourceCount + p.destinationCount) * Scalar.tolerance := by
  have hm : (1 : ℚ) ≤ p.sourceCount := by exact_mod_cast hm
  have hn : (1 : ℚ) ≤ p.destinationCount := by exact_mod_cast hn
  have hscale {k x : ℚ} (hx : x ≤ k * Scalar.tolerance)
      (hk : k ≤ p.sourceCount + p.destinationCount) :
      x ≤ (p.sourceCount + p.destinationCount) * Scalar.tolerance :=
    hx.trans (mul_le_mul_of_nonneg_right hk Scalar.tolerance_pos.le)
  have hdiff : |∑ i ∈ Finset.range p.sourceCount, s.remainingSupply.getD i 0 -
      ∑ j ∈ Finset.range p.destinationCount, s.remainingDemand.getD j 0| ≤ Scalar.tolerance := by
    rwa [h.sum_remaining, add_sub_cancel_left]
  rcases h.exhausted hs with hnil | hnil
  · have hsources := h.rowCount ▸ availableSources_eq_nil.mp hnil
    have hdestinations := le_of_abs_sub_le hsources h.demandNonneg hdiff
    rintro (i | j) hl
    · have hi := hsources i (TransportProblem.inl_mem_lines.mp hl)
      exact hscale (k := 1) (by rwa [one_mul]) (by linarith)
    · have hj := hdestinations j (TransportProblem.inr_mem_lines.mp hl)
      exact hscale hj (by linarith)
  · have hdestinations := h.columnCount ▸ availableDestinations_eq_nil.mp hnil
    have hsources := le_of_abs_sub_le hdestinations h.supplyNonneg (by rwa [abs_sub_comm])
    rintro (i | j) hl
    · have hi := hsources i (TransportProblem.inl_mem_lines.mp hl)
      exact hscale hi (by linarith)
    · have hj := hdestinations j (TransportProblem.inr_mem_lines.mp hl)
      exact hscale (k := 1) (by rwa [one_mul]) (by linarith)

end Complete

/-- Every choice of methods, step by step, fills a plan in one step less than there are sources and
destinations, and no step loses what is shipped, left or paid. -/
theorem filled_of_start {p : TransportProblem ℚ} {s₀ s : State ℚ} {methods : List InitialMethod}
    (hstart : start p m = .ok s₀) (hs : s = s₀.allocateAll methods) :
    (p.balance.sourceCount + p.balance.destinationCount - 1 ≤ methods.length →
      s.progress = .complete) ∧
    s.plan.InOrder ∧ s.plan.cells.Nodup ∧
    (∀ t ∈ s.plan, t.cell.row < p.balance.sourceCount ∧
      t.cell.column < p.balance.destinationCount ∧ Scalar.tolerance < t.amount) ∧
    (∀ i < p.balance.sourceCount,
      s.plan.sent i + s.remainingSupply.getD i 0 = p.balance.supply.getD i 0) ∧
    (∀ j < p.balance.destinationCount,
      s.plan.received j + s.remainingDemand.getD j 0 = p.balance.demand.getD j 0) ∧
    (s.remainingSupply.length = p.balance.sourceCount ∧
      s.remainingDemand.length = p.balance.destinationCount ∧
      ∀ x ∈ s.remainingSupply ++ s.remainingDemand, 0 ≤ x) ∧
    s.totalCost = (s.plan.map fun t => p.balance.unitCost t.cell * t.amount).sum ∧
    (s.progress = .complete → ∀ x ∈ s.remainingSupply ++ s.remainingDemand,
      x ≤ (p.balance.sourceCount + p.balance.destinationCount) * Scalar.tolerance ∧
        (p.Whole → x = 0)) := by
  obtain ⟨hp, rfl⟩ := start_eq_ok hstart
  obtain ⟨hm, hn, hnonneg⟩ := TransportProblem.fault?_eq_none hp
  have hm := hm.trans_le p.sourceCount_le_balance
  have hn := hn.trans_le p.destinationCount_le_balance
  have hsurplus := p.abs_surplus_balance_le
  have hfirst := depleted_firstState hm (TransportProblem.nonneg_balance hnonneg) m
  have hdepleted := hfirst.allocateAll methods
  rw [← hs, Nat.zero_add] at hdepleted
  have hfits := hdepleted.fits
  refine ⟨fun hlength => hdepleted.complete hsurplus (by omega) (by omega), hfits.inOrder,
    hfits.inOrder.nodup, fun t ht => ?_, fun i _ => hfits.supply i, fun j _ => hfits.demand j,
    ⟨hfits.supplyLength, hfits.demandLength, ?_⟩, hfits.cost,
    fun hcomplete x hx => ⟨?_, fun hw => ?_⟩⟩
  · have hinside := hfits.inside t.cell (Plan.mem_cells ht)
    exact ⟨hinside.1, hinside.2,
      hfits.inOrder.amount_of_mem ht ▸ hfits.amounts t.cell (Plan.mem_cells ht)⟩
  · exact hfits.forall_mem_remaining fun l _ => hfits.remaining_nonneg l
  · exact hfits.forall_mem_remaining (P := (· ≤ _))
      (hfits.remaining_le hm hn hsurplus hcomplete) x hx
  · have hwhole := (Whole.firstState hw.balance m).allocateAll hfirst.fits methods
    rw [← hs] at hwhole
    obtain ⟨hsupply, hdemand⟩ := hfits.remaining_eq_zero hwhole hw.surplus_balance hcomplete
    refine hfits.forall_mem_remaining (P := (· = 0)) (fun l hl => ?_) x hx
    cases l with
    | inl i => exact hsupply i (Finset.inl_mem_disjSum.mp hl)
    | inr j => exact hdemand j (Finset.inr_mem_disjSum.mp hl)

def surplusDepots : TransportProblem ℚ where
  supply := [3, 4]
  demand := [2, 2]
  costs := [[4, 1], [1, 5]]
  supplyLabels := []
  demandLabels := []

theorem start_surplusDepots :
    start surplusDepots .vogel = .ok (firstState surplusDepots.balance .vogel) :=
  start_eq_firstState (by decide +kernel)

theorem filled_of_surplusDepots : ∃ s₀ s : State ℚ, start surplusDepots .vogel = .ok s₀ ∧
    s = s₀.allocateAll [.vogel, .northwestCorner, .leastCost, .vogel] ∧ s.progress = .complete ∧
    ∀ x ∈ s.remainingSupply ++ s.remainingDemand, x = 0 := by
  have hwhole : surplusDepots.Whole := by
    intro x hx
    fin_cases hx <;> exact intCast_mem _ _
  have hrun : (firstState surplusDepots.balance .vogel).allocateAll
      [.vogel, .northwestCorner, .leastCost, .vogel] = _ := rfl
  obtain ⟨hcomplete, -, -, -, -, -, -, -, hleft⟩ := filled_of_start start_surplusDepots hrun.symm
  have hcomplete := hcomplete (by decide +kernel)
  exact ⟨_, _, start_surplusDepots, rfl, hcomplete, fun x hx => (hleft hcomplete x hx).2 hwhole⟩

end Transport

end Optima
