import Mathlib
import Optima.Proofs.Transport.Forest
import Optima.Proofs.Transport.Resolution

/-!
First plans have no cycles. A line with something left stands apart from all others with something
left, as far as the shipments go, and every shipment joins two such lines and uses up one of them.
A plan that is not degenerate is a spanning tree; it closes one loop through each other cell and
determines all dual values.
-/

namespace Optima.Transport

open State

variable {p : TransportProblem ℚ} {s s₀ : State ℚ} {m : InitialMethod} {c : Cell} {l : ℕ ⊕ ℕ}
  {x : ℚ}

/-- The shipments are untied, and no two lines with something left are joined by them. -/
structure Apart (s : State ℚ) : Prop where
  untied : Untied s.plan.cells
  alone : ∀ l, 0 < s.remaining l → ∃ f, Agree f s.plan.cells ∧ f l = 1 ∧
    ∀ l', 0 < s.remaining l' → l' ≠ l → f l' = 0

theorem apart_firstState (p : TransportProblem ℚ) (method : InitialMethod) :
    Apart (firstState p method) where
  untied _ hd := absurd hd List.not_mem_nil
  alone l _ := ⟨Pi.single l 1, fun _ hd => absurd hd List.not_mem_nil, Pi.single_eq_same l 1,
    fun _ _ hne => Pi.single_eq_of_ne hne 1⟩

namespace Apart

/-- Through a cell between lines with something left, a shipment joins lines that were apart. -/
theorem untied_ship (h : Apart s) (hs : Fits p s) (hrow : 0 < s.remaining (.inl c.row))
    (hcolumn : 0 < s.remaining (.inr c.column)) : Untied (s.ship c x).plan.cells := by
  obtain ⟨f, hf, hone, hzero⟩ := h.alone _ hrow
  have hzero := hzero _ hcolumn Sum.inr_ne_inl
  intro d hd
  by_cases hdc : d = c
  · subst hdc
    refine ⟨f, fun e he hed => ?_, by rw [hone, hzero]; exact one_ne_zero⟩
    rcases (hs.changed d x).mem_cells e he with he | he
    · exact hf e he
    · exact absurd (List.mem_singleton.mp he) hed
  · have hmem : d ∈ s.plan.cells := by
      rcases (hs.changed c x).mem_cells d hd with hd | hd
      · exact hd
      · exact absurd (List.mem_singleton.mp hd) hdc
    obtain ⟨g, hg, hdiffer⟩ := h.untied d hmem
    -- values that differ across the old cell are made to agree across the new one
    refine ⟨fun l => g l - (g (.inl c.row) - g (.inr c.column)) * f l, fun e he hed => ?_, ?_⟩
    · rcases (hs.changed c x).mem_cells e he with he | he
      · simp only [hg e he hed, hf e he]
      · obtain rfl : e = c := List.mem_singleton.mp he
        simp only [hone, hzero]
        ring
    · simp only [hf d hmem, ne_eq, sub_left_inj]
      exact hdiffer

/-- The line that is left of the two is apart from all others. -/
theorem alone_ship (h : Apart s) (hs : Fits p s) {a b : ℕ ⊕ ℕ}
    (hab : a = .inl c.row ∧ b = .inr c.column ∨ a = .inr c.column ∧ b = .inl c.row)
    (ha : 0 < s.remaining a) (hb : 0 < s.remaining b) (hspent : (s.ship c x).remaining a = 0)
    (hle : ∀ l, (s.ship c x).remaining l ≤ s.remaining l) (hl : 0 < (s.ship c x).remaining l) :
    ∃ f, Agree f (s.ship c x).plan.cells ∧ f l = 1 ∧
      ∀ l', 0 < (s.ship c x).remaining l' → l' ≠ l → f l' = 0 := by
  have hne : a ≠ b := by
    rcases hab with ⟨rfl, rfl⟩ | ⟨rfl, rfl⟩
    · exact Sum.inl_ne_inr
    · exact Sum.inr_ne_inl
  have hla : l ≠ a := fun heq => hl.ne' (heq ▸ hspent)
  -- values that agree across the old cells and at the two lines agree across all cells
  have hagree {f : ℕ ⊕ ℕ → ℚ} (hf : Agree f s.plan.cells) (heq : f a = f b) :
      Agree f (s.ship c x).plan.cells := by
    intro e he
    rcases (hs.changed c x).mem_cells e he with he | he
    · exact hf e he
    · rw [List.mem_singleton.mp he]
      rcases hab with ⟨rfl, rfl⟩ | ⟨rfl, rfl⟩
      · exact heq
      · exact heq.symm
  obtain ⟨f, hf, hone, hzero⟩ := h.alone l (hl.trans_le (hle l))
  by_cases hlb : l = b
  · subst hlb
    obtain ⟨g, hg, hgone, hgzero⟩ := h.alone a ha
    refine ⟨fun l => f l + g l, hagree (fun e he => ?_) ?_, ?_, fun l' hl' hne' => ?_⟩
    · simp only [hf e he, hg e he]
    · simp only [hone, hgone, hzero a ha hne, hgzero l hb hne.symm, zero_add, add_zero]
    · simp only [hone, hgzero l hb hne.symm, add_zero]
    · have hla' : l' ≠ a := fun heq => hl'.ne' (heq ▸ hspent)
      have hpos := hl'.trans_le (hle l')
      simp only [hzero l' hpos hne', hgzero l' hpos hla', add_zero]
  · refine ⟨f, hagree hf ?_, hone, fun l' hl' hne' => hzero l' (hl'.trans_le (hle l')) hne'⟩
    rw [hzero a ha hla.symm, hzero b hb (Ne.symm hlb)]

theorem ship (h : Apart s) (hs : Fits p s) (hc : c ∈ s.availableCells) :
    Apart (s.ship c (s.capacity c)) := by
  obtain ⟨hi, hj⟩ := mem_availableCells.mp hc
  have hrow : 0 < s.remaining (.inl c.row) :=
    Scalar.tolerance_pos.trans (mem_availableSources.mp hi).2
  have hcolumn : 0 < s.remaining (.inr c.column) :=
    Scalar.tolerance_pos.trans (mem_availableDestinations.mp hj).2
  have hle (l : ℕ ⊕ ℕ) : (s.ship c (s.capacity c)).remaining l ≤ s.remaining l := by
    have hpos := Scalar.tolerance_pos.trans (Fits.tolerance_lt_capacity hc)
    rw [hs.remaining_ship hc]
    split_ifs <;> linarith
  refine ⟨h.untied_ship hs hrow hcolumn, fun l hl => ?_⟩
  rcases hs.exists_spent_ship hc with hspent | hspent
  · exact h.alone_ship hs (.inl ⟨rfl, rfl⟩) hrow hcolumn hspent hle hl
  · exact h.alone_ship hs (.inr ⟨rfl, rfl⟩) hcolumn hrow hspent hle hl

theorem allocate (h : Apart s) (hs : Fits p s) (m : InitialMethod) : Apart (s.allocate m) := by
  rcases s.allocate_cases m with ⟨-, heq⟩ | ⟨-, k, e, d, heq⟩ | ⟨c, hc, k, r, e, d, -, heq⟩
  · rw [heq]
    exact h
  · rw [heq]
    exact { h with }
  · rw [heq]
    exact { h.ship hs hc with }

theorem allocateAll (h : Apart s) (hs : Fits p s) (methods : List InitialMethod) :
    Apart (s.allocateAll methods) := by
  induction methods generalizing s with
  | nil => exact h
  | cons m methods ih => exact ih (h.allocate hs m) (hs.allocate m)

end Apart

section Degenerate

theorem degenerate_allocate (h : s.progress = .complete → s.degenerate = s.isDegenerate)
    (m : InitialMethod) : (s.allocate m).progress = .complete →
      (s.allocate m).degenerate = (s.allocate m).isDegenerate := by
  unfold State.allocate
  split_ifs
  · exact h
  · cases s.filling m with
    | finished | stuck => exact fun _ => rfl
    | ship c reason x =>
      intro hcomplete
      simp only [afterFilling] at hcomplete ⊢
      split_ifs at hcomplete ⊢ with hfilled
      rfl

theorem degenerate_allocateAll (h : s.progress = .complete → s.degenerate = s.isDegenerate)
    (methods : List InitialMethod) : (s.allocateAll methods).progress = .complete →
      (s.allocateAll methods).degenerate = (s.allocateAll methods).isDegenerate := by
  induction methods generalizing s with
  | nil => exact h
  | cons m methods ih => exact ih (degenerate_allocate h m)

theorem Fits.isBasic (h : Fits p s) (hc : c ∈ s.plan.cells) : s.plan.isBasic c = true :=
  decide_eq_true (h.amounts c hc)

theorem Fits.basicCells_eq (h : Fits p s) : s.plan.basicCells = s.plan.cells :=
  h.inOrder.basicCells_eq fun _ hc => h.isBasic hc

/-- A plan that is not degenerate ties all lines together. -/
theorem Depleted.tree {n : ℕ} (h : Depleted p n s) (hs : s.isDegenerate = false) :
    Tree p s.plan := by
  obtain ⟨k, roots, hrooted, -⟩ := h.rooted
  have hpos := Finset.card_pos.mpr hrooted.nonempty
  have hcount := hrooted.count
  have hlength := hrooted.length
  rw [isDegenerate, decide_eq_false_iff_not, not_lt, h.fits.basicCells_eq, h.fits.rowCount,
    h.fits.columnCount, Plan.cells, List.length_map] at hs
  have heq : s.plan.length + 1 = p.sourceCount + p.destinationCount := by omega
  exact ⟨heq, hrooted.spans heq⟩

end Degenerate

section Prices

/-- Values of the rows and the columns, zero at the first row, that make up the unit costs of all
shipments. -/
structure Prices (p : TransportProblem ℚ) (plan : Plan ℚ) (u v : ℕ → ℚ) : Prop where
  first : u 0 = 0
  sum_eq : ∀ c ∈ plan.cells, u c.row + v c.column = p.unitCost c

def dualsOf (m n : ℕ) (u v : ℕ → ℚ) : Duals ℚ :=
  ⟨(List.range m).map fun i => some (u i), (List.range n).map fun j => some (v j)⟩

/-- Shipments that tie all lines together leave one choice of values. -/
theorem Prices.unique {plan : Plan ℚ} {u v u' v' : ℕ → ℚ} (h : Prices p plan u v)
    (h' : Prices p plan u' v') (hm : 0 < p.sourceCount) (hspans : p.Spans plan.cells) :
    (∀ i < p.sourceCount, u' i = u i) ∧ ∀ j < p.destinationCount, v' j = v j := by
  -- what the rows gain the columns lose, and the first row gains nothing
  obtain ⟨x, hx⟩ := hspans (Sum.elim (fun i => u' i - u i) fun j => v j - v' j) fun c hc => by
    have h1 := h.sum_eq c hc
    have h2 := h'.sum_eq c hc
    simp only [Sum.elim_inl, Sum.elim_inr]
    linarith
  have hzero : x = 0 := by
    rw [← hx (.inl 0) (TransportProblem.inl_mem_lines.mpr hm), Sum.elim_inl, h.first, h'.first,
      sub_zero]
  constructor
  · intro i hi
    have heq := hx (.inl i) (TransportProblem.inl_mem_lines.mpr hi)
    rw [Sum.elim_inl, hzero] at heq
    linarith
  · intro j hj
    have heq := hx (.inr j) (TransportProblem.inr_mem_lines.mpr hj)
    rw [Sum.elim_inr, hzero] at heq
    linarith

theorem row?_zero_of_allDuals {F : Type} [Scalar F] {s : State F} {d : Duals F}
    (hd : s.allDuals = .ok d) (hm : 0 < s.rowCount) : d.row? 0 = some 0 := by
  unfold allDuals at hd
  dsimp only at hd
  split_ifs at hd
  obtain rfl := Except.ok.inj hd
  refine Duals.propagate_induction (P := fun d => d.row? 0 = some 0) (fun d c _ h => ?_) _ ?_
  · unfold Duals.resolve
    split
    · exact h
    · next v hnone _ =>
      have hne : c.row ≠ 0 := by
        intro heq
        rw [heq, h] at hnone
        exact Option.some_ne_none _ hnone
      change (d.rows.set c.row _).getD 0 none = some 0
      rw [List.getD_eq_getElem?_getD, List.getElem?_set_ne hne, ← List.getD_eq_getElem?_getD]
      exact h
    · exact h
  · rw [Duals.row?, Duals.start, getD_set (by simpa using hm), if_pos rfl]

theorem eq_map_of_countP_eq_zero {values : List (Option ℚ)} {n : ℕ} (hn : values.length = n)
    (h : values.countP Option.isNone = 0) :
    values = (List.range n).map fun i => some ((values.getD i none).getD 0) := by
  apply List.ext_getElem
  · rw [hn, List.length_map, List.length_range]
  · intro i hi _
    have hnone := List.countP_eq_zero.mp h values[i] (List.getElem_mem hi)
    rw [List.getElem_map, List.getElem_range, List.getD_eq_getElem _ _ hi]
    cases hvalue : values[i] with
    | none => rw [hvalue] at hnone; exact absurd rfl hnone
    | some y => rfl

theorem exists_prices (hs : Fits p s) (htree : Tree p s.plan) (hm : 0 < p.sourceCount) :
    ∃ u v, Prices p s.plan u v ∧
      s.allDuals = .ok (dualsOf p.sourceCount p.destinationCount u v) := by
  have hinside : ∀ c ∈ s.plan.basicCells, c.row < s.rowCount ∧ c.column < s.columnCount := by
    rw [hs.basicCells_eq, hs.rowCount, hs.columnCount]
    exact hs.inside
  have hcells : s.plan.basicCells.length < s.rowCount + s.columnCount := by
    rw [hs.basicCells_eq, hs.rowCount, hs.columnCount, Plan.cells, List.length_map]
    exact hs.room
  obtain ⟨d, hd⟩ := allDuals_of_spans hs.problem hm (hs.basicCells_eq ▸ htree.spans)
    (hs.basicCells_eq ▸ hs.inside)
  have hm' : 0 < s.rowCount := hs.rowCount.symm ▸ hm
  obtain ⟨hzero, used, htied⟩ := tied_of_allDuals hd hm' hinside
  have hfirst := row?_zero_of_allDuals hd hm'
  obtain ⟨hrows, hcolumns⟩ := Nat.add_eq_zero_iff.mp hzero
  refine ⟨fun i => (d.row? i).getD 0, fun j => (d.column? j).getD 0, ⟨?_, fun c hc => ?_⟩, ?_⟩
  · simp only [hfirst, Option.getD_some]
  · obtain ⟨u, v, hu, hv, heq⟩ := exact_of_allDuals hd hinside hcells c (hs.basicCells_eq ▸ hc)
    simp only [hu, hv, Option.getD_some]
    rw [← heq, hs.unitCost]
  · rw [hd, dualsOf]
    congr 1
    cases d
    congr 1
    · exact eq_map_of_countP_eq_zero (htied.rows.trans hs.rowCount) hrows
    · exact eq_map_of_countP_eq_zero (htied.columns.trans hs.columnCount) hcolumns

end Prices

/-- The search returns the only loop through a cell without a shipment. -/
theorem exists_closedLoop (h : Apart s) (hs : Fits p s) (htree : Tree p s.plan)
    (hinside : c.row < p.sourceCount ∧ c.column < p.destinationCount) (hc : c ∉ s.plan.cells) :
    ∃ rest, s.closedLoop? c = some (c :: rest) ∧ ClosedLoop c rest ∧ rest ⊆ s.plan.cells ∧
      ∀ others, ClosedLoop c others → others ⊆ s.plan.cells → others = rest := by
  have hbasic : ∀ d ∈ s.plan.cells, s.plan.isBasic d = true := fun _ hd => hs.isBasic hd
  obtain ⟨cells, hcells⟩ := exists_closedLoop? hs.problem htree hbasic hs.inside hinside hc
  have hloop := isLoop_of_closedLoop? hcells
  obtain ⟨rest, rfl, hrest, hrestBasic⟩ := isLoop_iff.mp hloop
  refine ⟨rest, hcells, hrest, fun d hd => Plan.mem_of_isBasic (hrestBasic d hd),
    fun others hothers hsubset => ?_⟩
  have hother : IsLoop s.plan c (c :: others) :=
    isLoop_iff.mpr ⟨others, rfl, hothers, fun d hd => hbasic d (hsubset hd)⟩
  exact (List.cons.inj (hother.unique h.untied hloop)).2

/-- Whatever methods take the steps, the shipments of a first plan contain no closed loop. If the
plan is not degenerate, they are a spanning tree of the rows and columns, the search returns the
only loop that starts at a cell without a shipment, and the dual values found are the only ones that
start from zero and make up all unit costs. -/
theorem spanning_tree_of_start {p : TransportProblem ℚ} {methods : List InitialMethod}
    (hstart : start p m = .ok s₀) (hs : s = s₀.allocateAll methods) :
    (∀ first rest, first :: rest ⊆ s.plan.cells → ¬ ClosedLoop first rest) ∧
    (lineGraph p.balance.sourceCount p.balance.destinationCount s.plan.cells).IsAcyclic ∧
    (s.progress = .complete → s.degenerate = s.isDegenerate) ∧
    (s.isDegenerate = false →
      (lineGraph p.balance.sourceCount p.balance.destinationCount s.plan.cells).IsTree ∧
      (∀ c, c.row < p.balance.sourceCount ∧ c.column < p.balance.destinationCount →
        c ∉ s.plan.cells → ∃ rest, s.closedLoop? c = some (c :: rest) ∧ ClosedLoop c rest ∧
          rest ⊆ s.plan.cells ∧
          ∀ others, ClosedLoop c others → others ⊆ s.plan.cells → others = rest) ∧
      ∃ u v, Prices p.balance s.plan u v ∧
        s.allDuals = .ok (dualsOf p.balance.sourceCount p.balance.destinationCount u v) ∧
        ∀ u' v', Prices p.balance s.plan u' v' →
          (∀ i < p.balance.sourceCount, u' i = u i) ∧
            ∀ j < p.balance.destinationCount, v' j = v j) := by
  obtain ⟨hp, rfl⟩ := start_eq_ok hstart
  obtain ⟨hm, -, hnonneg⟩ := TransportProblem.fault?_eq_none hp
  have hm := hm.trans_le p.sourceCount_le_balance
  have hfirst := depleted_firstState hm (TransportProblem.nonneg_balance hnonneg) m
  have hdepleted := hfirst.allocateAll methods
  have hapart := (apart_firstState p.balance m).allocateAll hfirst.fits methods
  have hflag := degenerate_allocateAll (s := firstState p.balance m)
    (fun hcomplete => Progress.noConfusion hcomplete) methods
  rw [← hs] at hdepleted hapart hflag
  have hfits := hdepleted.fits
  have hacyclic : (lineGraph p.balance.sourceCount p.balance.destinationCount
      s.plan.cells).IsAcyclic := isAcyclic_lineGraph hapart.untied
  refine ⟨fun first rest hsubset => not_closedLoop hapart.untied (fun _ hc => hfits.isBasic hc)
    hsubset, hacyclic, hflag, fun hnot => ?_⟩
  have htree := hdepleted.tree hnot
  obtain ⟨u, v, hprices, hduals⟩ := exists_prices hfits htree hm
  refine ⟨⟨connected_lineGraph hm htree.spans hfits.inside, hacyclic⟩,
    fun c hinside hc => exists_closedLoop hapart hfits htree hinside hc,
    u, v, hprices, hduals, fun u' v' h' => hprices.unique h' hm htree.spans⟩

def surplusPlan : State ℚ := (firstState surplusDepots.balance .vogel).allocateAll
  [.vogel, .northwestCorner, .leastCost, .vogel]

theorem surplusPlan_tree : surplusPlan.isDegenerate = false ∧
    (lineGraph 2 3 surplusPlan.plan.cells).IsTree ∧
    (∃ rest, surplusPlan.closedLoop? ⟨1, 1⟩ = some (⟨1, 1⟩ :: rest) ∧ ClosedLoop ⟨1, 1⟩ rest) ∧
    ∃ u v, Prices surplusDepots.balance surplusPlan.plan u v ∧
      surplusPlan.allDuals = .ok (dualsOf 2 3 u v) := by
  obtain ⟨hrows, hcolumns, hnot, hcell⟩ : surplusDepots.balance.sourceCount = 2 ∧
      surplusDepots.balance.destinationCount = 3 ∧ surplusPlan.isDegenerate = false ∧
      (⟨1, 1⟩ : Cell) ∉ surplusPlan.plan.cells := by
    decide +kernel
  obtain ⟨-, -, -, htree⟩ := spanning_tree_of_start start_surplusDepots (rfl : surplusPlan = _)
  rw [hrows, hcolumns] at htree
  obtain ⟨hgraph, hloops, u, v, hprices, hduals, -⟩ := htree hnot
  obtain ⟨rest, hrest, hloop, -⟩ := hloops ⟨1, 1⟩ (by decide) hcell
  exact ⟨hnot, hgraph, ⟨rest, hrest, hloop⟩, u, v, hprices, hduals⟩

end Optima.Transport
