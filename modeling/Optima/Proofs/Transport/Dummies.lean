import Optima.Proofs.Transport.Totals

namespace Optima

def Cell.swap (c : Cell) : Cell := ⟨c.column, c.row⟩

section Plans

/-- Amounts of a table, none of them negative, whose totals stand in given relations to the entries
of two lists. -/
structure Ships (supply demand : List ℚ) (rows columns : ℚ → ℚ → Prop) (x : Cell → ℚ) : Prop where
  nonneg : ∀ c, 0 ≤ x c
  inside : ∀ c, x c ≠ 0 → c.row < supply.length ∧ c.column < demand.length
  rows : ∀ i < supply.length,
    rows (∑ j ∈ Finset.range demand.length, x ⟨i, j⟩) (supply.getD i 0)
  columns : ∀ j < demand.length,
    columns (∑ i ∈ Finset.range supply.length, x ⟨i, j⟩) (demand.getD j 0)

/-- The amounts in the first rows and columns, and nothing elsewhere. -/
def crop (rows columns : ℕ) (x : Cell → ℚ) (c : Cell) : ℚ :=
  if c.row < rows ∧ c.column < columns then x c else 0

def kept (supply : List ℚ) (columns : ℕ) (x : Cell → ℚ) (i : ℕ) : ℚ :=
  supply.getD i 0 - ∑ j ∈ Finset.range columns, x ⟨i, j⟩

def withKept (supply : List ℚ) (columns : ℕ) (x : Cell → ℚ) (c : Cell) : ℚ :=
  if c.column = columns then kept supply columns x c.row else x c

variable {supply demand : List ℚ} {rest : ℚ} {rows columns : ℚ → ℚ → Prop} {x : Cell → ℚ}
  {m n i j : ℕ}

theorem crop_of_lt (x : Cell → ℚ) (hi : i < m) (hj : j < n) : crop m n x ⟨i, j⟩ = x ⟨i, j⟩ :=
  if_pos ⟨hi, hj⟩

theorem sum_crop_row (x : Cell → ℚ) (hi : i < m) :
    ∑ j ∈ Finset.range n, crop m n x ⟨i, j⟩ = ∑ j ∈ Finset.range n, x ⟨i, j⟩ :=
  Finset.sum_congr rfl fun _ hj => crop_of_lt x hi (Finset.mem_range.mp hj)

theorem sum_withKept_row (i : ℕ) :
    ∑ j ∈ Finset.range n, withKept supply n x ⟨i, j⟩ = ∑ j ∈ Finset.range n, x ⟨i, j⟩ :=
  Finset.sum_congr rfl fun _ hj => if_neg (Finset.mem_range.mp hj).ne

namespace Ships

theorem eq_zero_of_row (h : Ships supply demand rows columns x) (hi : supply.length ≤ i) (j : ℕ) :
    x ⟨i, j⟩ = 0 := by
  by_contra hx
  exact hi.not_gt (h.inside _ hx).1

theorem kept_eq_zero (h : Ships supply demand rows columns x) (hi : supply.length ≤ i) :
    kept supply n x i = 0 := by
  rw [kept, List.getD_eq_default _ _ hi, Finset.sum_eq_zero fun j _ => h.eq_zero_of_row hi j,
    sub_zero]

theorem kept_nonneg (h : Ships supply demand (· ≤ ·) columns x) (i : ℕ) :
    0 ≤ kept supply demand.length x i := by
  rcases lt_or_ge i supply.length with hi | hi
  · exact sub_nonneg.mpr (h.rows i hi)
  · exact (h.kept_eq_zero hi).ge

theorem sum_kept (h : Ships supply demand rows (· = ·) x) :
    ∑ i ∈ Finset.range supply.length, kept supply demand.length x i =
      supply.sum - demand.sum := by
  have hdemand : ∑ i ∈ Finset.range supply.length, ∑ j ∈ Finset.range demand.length, x ⟨i, j⟩ =
      demand.sum := by
    rw [Finset.sum_comm, sum_eq_range demand]
    exact Finset.sum_congr rfl fun j hj => h.columns j (Finset.mem_range.mp hj)
  rw [sum_eq_range supply, ← hdemand, ← Finset.sum_sub_distrib]
  rfl

theorem swap (h : Ships supply demand rows columns x) :
    Ships demand supply columns rows (x ∘ Cell.swap) :=
  ⟨fun c => h.nonneg c.swap, fun c hc => (h.inside c.swap hc).symm, h.columns, h.rows⟩

theorem cropped (h : Ships supply (demand ++ [rest]) (· = ·) (· = ·) x) :
    Ships supply demand (· ≤ ·) (· = ·) (crop supply.length demand.length x) := by
  have hlength : (demand ++ [rest]).length = demand.length + 1 := List.length_append
  refine ⟨fun c => ?_, fun c hc => ?_, fun i hi => ?_, fun j hj => ?_⟩
  · unfold crop
    split_ifs
    · exact h.nonneg c
    · exact le_rfl
  · by_contra hout
    exact hc (if_neg hout)
  · have hrow := h.rows i hi
    rw [hlength, Finset.sum_range_succ] at hrow
    rw [sum_crop_row x hi, ← hrow]
    exact le_add_of_nonneg_right (h.nonneg _)
  · have hcolumn := h.columns j (by omega)
    rw [List.getD_append _ _ _ _ hj] at hcolumn
    rw [← hcolumn]
    exact Finset.sum_congr rfl fun i hi => crop_of_lt x (Finset.mem_range.mp hi) hj

/-- With one more column for what the sources keep they ship all that they have. -/
theorem filled (h : Ships supply demand (· ≤ ·) (· = ·) x)
    (hrest : supply.sum - demand.sum = rest) :
    Ships supply (demand ++ [rest]) (· = ·) (· = ·) (withKept supply demand.length x) := by
  have hlength : (demand ++ [rest]).length = demand.length + 1 := List.length_append
  refine ⟨fun c => ?_, fun c hc => ?_, fun i hi => ?_, fun j hj => ?_⟩
  · unfold withKept
    split_ifs
    · exact h.kept_nonneg c.row
    · exact h.nonneg c
  · unfold withKept at hc
    split_ifs at hc with hcolumn
    · exact ⟨not_le.mp (mt h.kept_eq_zero hc), by omega⟩
    · exact ⟨(h.inside c hc).1, by have := (h.inside c hc).2; omega⟩
  · rw [hlength, Finset.sum_range_succ, sum_withKept_row, withKept, if_pos rfl, kept]
    exact add_sub_cancel _ _
  · rw [hlength] at hj
    rcases Nat.lt_succ_iff_lt_or_eq.mp hj with hj | rfl
    · rw [List.getD_append _ _ _ _ hj, ← h.columns j hj]
      exact Finset.sum_congr rfl fun i _ => if_neg hj.ne
    · rw [List.getD_append_right _ _ _ _ le_rfl, Nat.sub_self, List.getD_cons_zero, ← hrest,
        ← h.sum_kept]
      exact Finset.sum_congr rfl fun i _ => if_pos rfl

theorem withKept_crop (h : Ships supply (demand ++ [rest]) (· = ·) (· = ·) x) :
    withKept supply demand.length (crop supply.length demand.length x) = x := by
  have hlength : (demand ++ [rest]).length = demand.length + 1 := List.length_append
  funext ⟨i, j⟩
  unfold withKept
  split_ifs with hj
  · obtain rfl : j = demand.length := hj
    rcases lt_or_ge i supply.length with hi | hi
    · have hrow := h.rows i hi
      rw [hlength, Finset.sum_range_succ] at hrow
      rw [kept, sum_crop_row x hi, ← hrow, add_sub_cancel_left]
    · rw [h.cropped.kept_eq_zero hi, h.eq_zero_of_row hi]
  · by_cases hin : i < supply.length ∧ j < demand.length
    · exact if_pos hin
    · rw [crop, if_neg hin]
      by_contra hx
      have hinside := h.inside ⟨i, j⟩ (Ne.symm hx)
      dsimp only at hj hinside
      omega

theorem crop_withKept (h : Ships supply demand rows columns x) :
    crop supply.length demand.length (withKept supply demand.length x) = x := by
  funext c
  unfold crop
  split_ifs with hin
  · exact if_neg hin.2.ne
  · by_contra hx
    exact hin (h.inside c (Ne.symm hx))

end Ships

/-- Dropping a destination that takes the rest of the supplies is a correspondence between the plans
that ship everything and the plans that serve the other destinations. -/
theorem bijOn_crop_column (hrest : supply.sum - demand.sum = rest) :
    Set.BijOn (crop supply.length demand.length)
      {x | Ships supply (demand ++ [rest]) (· = ·) (· = ·) x}
      {x | Ships supply demand (· ≤ ·) (· = ·) x} := by
  have hinverse : Set.InvOn (withKept supply demand.length) (crop supply.length demand.length)
      {x | Ships supply (demand ++ [rest]) (· = ·) (· = ·) x}
      {x | Ships supply demand (· ≤ ·) (· = ·) x} :=
    ⟨fun x hx => Ships.withKept_crop hx, fun x hx => Ships.crop_withKept hx⟩
  exact hinverse.bijOn (fun x hx => Ships.cropped hx) fun x hx => Ships.filled hx hrest

theorem bijOn_swap (supply demand : List ℚ) (rows columns : ℚ → ℚ → Prop) :
    Set.BijOn (· ∘ Cell.swap) {x | Ships supply demand rows columns x}
      {x | Ships demand supply columns rows x} := by
  have hinverse : Set.InvOn (· ∘ Cell.swap) (· ∘ Cell.swap)
      {x | Ships supply demand rows columns x} {x | Ships demand supply columns rows x} :=
    ⟨fun _ _ => rfl, fun _ _ => rfl⟩
  exact hinverse.bijOn (fun x hx => Ships.swap hx) fun x hx => Ships.swap hx

/-- Dropping a source that covers the rest of the demands, with rows and columns in each other's
place. -/
theorem bijOn_crop_row (hrest : demand.sum - supply.sum = rest) :
    Set.BijOn (crop supply.length demand.length)
      {x | Ships (supply ++ [rest]) demand (· = ·) (· = ·) x}
      {x | Ships supply demand (· = ·) (· ≤ ·) x} := by
  have hswap := ((bijOn_swap demand supply (· ≤ ·) (· = ·)).comp (bijOn_crop_column hrest)).comp
    (bijOn_swap (supply ++ [rest]) demand (· = ·) (· = ·))
  refine hswap.congr fun x _ => funext fun c => ?_
  simp only [Function.comp_apply, crop, Cell.swap, and_comm]

end Plans

namespace TransportProblem

variable {p : TransportProblem ℚ} {x : Cell → ℚ}

theorem Valid.sourceCount_pos (h : p.Valid) : 0 < p.sourceCount :=
  List.length_pos_iff.mpr h.sources

theorem Valid.destinationCount_pos (h : p.Valid) : 0 < p.destinationCount :=
  List.length_pos_iff.mpr h.destinations

section Labels

theorem length_labels {labels : List String} {n : ℕ} (h : labelsFit labels n = true)
    (letter : String) :
    (if labels.isEmpty then defaultLabels letter n else labels).length = n := by
  split_ifs with hempty
  · rw [defaultLabels, List.length_map, List.length_range]
  · rw [labelsFit, Bool.or_eq_true, beq_iff_eq] at h
    exact h.resolve_left hempty

theorem labelsFit_of_length {labels : List String} {n : ℕ} (h : labels.length = n) :
    labelsFit labels n = true :=
  Bool.or_eq_true_iff.mpr (.inr (beq_iff_eq.mpr h))

theorem prefix_labels (labels : List String) (letter : String) (n : ℕ) :
    labels <+: if labels.isEmpty then defaultLabels letter n else labels := by
  split_ifs with hempty
  · rw [List.isEmpty_iff.mp hempty]
    exact List.nil_prefix
  · exact List.prefix_rfl

theorem Valid.length_supplyLabels (h : p.Valid) : p.labelled.supplyLabels.length = p.sourceCount :=
  length_labels h.supplyLabels "S"

theorem Valid.length_demandLabels (h : p.Valid) :
    p.labelled.demandLabels.length = p.destinationCount :=
  length_labels h.demandLabels "D"

theorem labelled_eq_self (hsupply : p.supplyLabels ≠ []) (hdemand : p.demandLabels ≠ []) :
    p.labelled = p := by
  have hsupply := List.isEmpty_eq_false_iff.mpr hsupply
  have hdemand := List.isEmpty_eq_false_iff.mpr hdemand
  rw [labelled, hsupply, hdemand]
  rfl

end Labels

section Balance

/-- A problem as given, in the rows and columns of another one that come first. -/
structure Leads (p q : TransportProblem ℚ) : Prop where
  supply : p.supply <+: q.supply
  demand : p.demand <+: q.demand
  costs : ∀ i < p.sourceCount, p.costs.getD i [] <+: q.costs.getD i []
  supplyLabels : p.supplyLabels <+: q.supplyLabels
  demandLabels : p.demandLabels <+: q.demandLabels

theorem Valid.labelled (h : p.Valid) : p.labelled.Valid :=
  ⟨h.sources, h.destinations, h.rowCount, h.rowLength,
    labelsFit_of_length h.length_supplyLabels, labelsFit_of_length h.length_demandLabels, h.nonneg⟩

@[simp] theorem destinationCount_withDummyDestination (p : TransportProblem ℚ) (amount : ℚ) :
    (p.withDummyDestination amount).destinationCount = p.destinationCount + 1 :=
  List.length_append

@[simp] theorem sourceCount_withDummySource (p : TransportProblem ℚ) (amount : ℚ) :
    (p.withDummySource amount).sourceCount = p.sourceCount + 1 :=
  List.length_append

theorem Valid.withDummyDestination {amount : ℚ} (h : p.Valid) (hamount : 0 ≤ amount)
    (hlabels : p.demandLabels.length = p.destinationCount) :
    (p.withDummyDestination amount).Valid where
  sources := h.sources
  destinations := List.append_ne_nil_of_left_ne_nil h.destinations _
  rowCount := (List.length_map _).trans h.rowCount
  rowLength := by
    intro row hrow
    obtain ⟨r, hr, rfl⟩ := List.mem_map.mp hrow
    rw [destinationCount_withDummyDestination, List.length_append, h.rowLength r hr]
    rfl
  supplyLabels := h.supplyLabels
  demandLabels := by
    apply labelsFit_of_length
    rw [destinationCount_withDummyDestination, ← hlabels]
    exact List.length_append
  nonneg := by
    intro a ha
    have ha : a ∈ (p.supply ++ p.demand) ++ [amount] := List.append_assoc .. ▸ ha
    rcases List.mem_append.mp ha with ha | ha
    · exact h.nonneg a ha
    · exact List.mem_singleton.mp ha ▸ hamount

theorem Valid.withDummySource {amount : ℚ} (h : p.Valid) (hamount : 0 ≤ amount)
    (hlabels : p.supplyLabels.length = p.sourceCount) : (p.withDummySource amount).Valid where
  sources := List.append_ne_nil_of_left_ne_nil h.sources _
  destinations := h.destinations
  rowCount := by
    rw [sourceCount_withDummySource, ← h.rowCount]
    exact List.length_append
  rowLength := by
    intro row hrow
    rcases List.mem_append.mp hrow with hrow | hrow
    · exact h.rowLength row hrow
    · rw [List.mem_singleton.mp hrow, List.length_replicate]
      rfl
  supplyLabels := by
    apply labelsFit_of_length
    rw [sourceCount_withDummySource, ← hlabels]
    exact List.length_append
  demandLabels := h.demandLabels
  nonneg := by
    intro a ha
    rcases List.mem_append.mp ha with ha | ha
    · rcases List.mem_append.mp ha with ha | ha
      · exact h.nonneg a (List.mem_append_left _ ha)
      · exact List.mem_singleton.mp ha ▸ hamount
    · exact h.nonneg a (List.mem_append_right _ ha)

theorem Valid.balance (h : p.Valid) : p.balance.Valid := by
  rcases p.balance_cases with ⟨hpos, heq⟩ | ⟨hneg, heq⟩ | ⟨-, heq⟩
  · rw [heq]
    exact h.labelled.withDummyDestination (Scalar.tolerance_pos.trans hpos).le
      h.length_demandLabels
  · rw [heq]
    refine h.labelled.withDummySource (neg_nonneg.mpr (hneg.trans ?_).le) h.length_supplyLabels
    exact neg_lt_zero.mpr Scalar.tolerance_pos
  · rw [heq]
    exact h.labelled

theorem Valid.leads_balance (h : p.Valid) : p.Leads p.balance := by
  have hsupply := prefix_labels p.supplyLabels "S" p.sourceCount
  have hdemand := prefix_labels p.demandLabels "D" p.destinationCount
  rcases p.balance_cases with ⟨-, heq⟩ | ⟨-, heq⟩ | ⟨-, heq⟩
  · rw [heq]
    refine ⟨List.prefix_rfl, List.prefix_append _ _, fun i hi => ?_, hsupply,
      hdemand.trans (List.prefix_append _ _)⟩
    have hi : i < p.costs.length := h.rowCount ▸ hi
    change _ <+: (p.costs.map (· ++ [0])).getD i []
    rw [List.getD_eq_getElem _ _ hi, List.getD_eq_getElem _ _ (by simpa using hi), List.getElem_map]
    exact List.prefix_append _ _
  · rw [heq]
    refine ⟨List.prefix_append _ _, List.prefix_rfl, fun i hi => ?_,
      hsupply.trans (List.prefix_append _ _), hdemand⟩
    change _ <+: (p.costs ++ [List.replicate p.destinationCount 0]).getD i []
    rw [List.getD_append _ _ _ _ (h.rowCount ▸ hi)]
  · rw [heq]
    exact ⟨List.prefix_rfl, List.prefix_rfl, fun i _ => List.prefix_rfl, hsupply, hdemand⟩

/-- A balanced problem has labels, and nothing is added to it. -/
theorem Valid.balance_balance (h : p.Valid) : p.balance.balance = p.balance := by
  have hvalid := h.balance
  have hlabels : p.balance.supplyLabels ≠ [] ∧ p.balance.demandLabels ≠ [] := by
    have hsupply : p.labelled.supplyLabels ≠ [] :=
      List.length_pos_iff.mp (h.length_supplyLabels ▸ h.sourceCount_pos)
    have hdemand : p.labelled.demandLabels ≠ [] :=
      List.length_pos_iff.mp (h.length_demandLabels ▸ h.destinationCount_pos)
    rcases p.balance_cases with ⟨-, heq⟩ | ⟨-, heq⟩ | ⟨-, heq⟩
    · rw [heq]
      exact ⟨hsupply, List.append_ne_nil_of_left_ne_nil hdemand _⟩
    · rw [heq]
      exact ⟨List.append_ne_nil_of_left_ne_nil hsupply _, hdemand⟩
    · rw [heq]
      exact ⟨hsupply, hdemand⟩
  have hle := abs_surplus_balance_le p
  rcases p.balance.balance_cases with ⟨hpos, -⟩ | ⟨hneg, -⟩ | ⟨-, heq⟩
  · exact absurd (abs_le.mp hle).2 hpos.not_ge
  · exact absurd (abs_le.mp hle).1 hneg.not_ge
  · rw [heq, labelled_eq_self hlabels.1 hlabels.2]

end Balance

section Costs

theorem Valid.unitCost_eq_zero (h : p.Valid) {c : Cell}
    (hc : ¬(c.row < p.sourceCount ∧ c.column < p.destinationCount)) : p.unitCost c = 0 := by
  unfold unitCost
  rcases lt_or_ge c.row p.sourceCount with hi | hi
  · have hi' : c.row < p.costs.length := h.rowCount.symm ▸ hi
    rw [List.getD_eq_getElem _ _ hi']
    apply List.getD_eq_default
    rw [h.rowLength _ (List.getElem_mem hi')]
    exact not_lt.mp fun hj => hc ⟨hi, hj⟩
  · rw [List.getD_eq_default p.costs _ (h.rowCount.symm ▸ hi), List.getD_nil]

/-- What a plan ships over dummies adds nothing to its cost. -/
theorem Valid.costOf_crop (h : p.Valid) (x : Cell → ℚ) :
    p.costOf (crop p.sourceCount p.destinationCount x) = p.balance.costOf x := by
  have hzero {i j : ℕ} (hij : ¬(i < p.sourceCount ∧ j < p.destinationCount)) :
      p.unitCost ⟨i, j⟩ * x ⟨i, j⟩ = 0 := by
    rw [h.unitCost_eq_zero hij, zero_mul]
  have hrow (i : ℕ) : ∑ j ∈ Finset.range p.destinationCount, p.unitCost ⟨i, j⟩ * x ⟨i, j⟩ =
      ∑ j ∈ Finset.range p.balance.destinationCount, p.unitCost ⟨i, j⟩ * x ⟨i, j⟩ := by
    apply Finset.sum_subset (Finset.range_subset_range.mpr p.destinationCount_le_balance)
    intro j _ hj
    exact hzero fun hij => hj (Finset.mem_range.mpr hij.2)
  calc p.costOf (crop p.sourceCount p.destinationCount x)
      = ∑ i ∈ Finset.range p.sourceCount, ∑ j ∈ Finset.range p.destinationCount,
          p.unitCost ⟨i, j⟩ * x ⟨i, j⟩ := by
        refine Finset.sum_congr rfl fun i hi => Finset.sum_congr rfl fun j hj => ?_
        rw [crop_of_lt x (Finset.mem_range.mp hi) (Finset.mem_range.mp hj)]
    _ = ∑ i ∈ Finset.range p.sourceCount, ∑ j ∈ Finset.range p.balance.destinationCount,
          p.unitCost ⟨i, j⟩ * x ⟨i, j⟩ := Finset.sum_congr rfl fun i _ => hrow i
    _ = ∑ i ∈ Finset.range p.balance.sourceCount, ∑ j ∈ Finset.range p.balance.destinationCount,
          p.unitCost ⟨i, j⟩ * x ⟨i, j⟩ := by
        apply Finset.sum_subset (Finset.range_subset_range.mpr p.sourceCount_le_balance)
        intro i _ hi
        exact Finset.sum_eq_zero fun j _ => hzero fun hij => hi (Finset.mem_range.mpr hij.1)
    _ = p.balance.costOf x := by rw [costOf, unitCost_balance]

end Costs

theorem surplus_eq (p : TransportProblem ℚ) : p.surplus = p.supply.sum - p.demand.sum := by
  rw [surplus, totalSupply, totalDemand, Scalar.sum_eq, Scalar.sum_eq]

/-- A balanced problem is one to solve, with equal totals and with the given problem as its first
part, and balancing it again changes nothing. Where it has a dummy, dropping the dummy's line makes
of the plans that ship everything exactly the plans of the given problem that serve all
destinations, or ship all supplies, each of them once and at its cost. -/
theorem plans_of_balance (hp : p.fault? = none) :
    p.balance.fault? = none ∧ p.balance.isBalanced = true ∧ p.Leads p.balance ∧
      p.balance.balance = p.balance ∧
      (Scalar.tolerance < p.surplus ∧ p.balance.sourceCount = p.sourceCount ∧
          p.balance.destinationCount = p.destinationCount + 1 ∧
          Set.BijOn (crop p.sourceCount p.destinationCount)
            {x | Ships p.balance.supply p.balance.demand (· = ·) (· = ·) x}
            {x | Ships p.supply p.demand (· ≤ ·) (· = ·) x} ∨
        p.surplus < -Scalar.tolerance ∧ p.balance.sourceCount = p.sourceCount + 1 ∧
          p.balance.destinationCount = p.destinationCount ∧
          Set.BijOn (crop p.sourceCount p.destinationCount)
            {x | Ships p.balance.supply p.balance.demand (· = ·) (· = ·) x}
            {x | Ships p.supply p.demand (· = ·) (· ≤ ·) x} ∨
        |p.surplus| ≤ Scalar.tolerance ∧ p.balance.sourceCount = p.sourceCount ∧
          p.balance.destinationCount = p.destinationCount) ∧
      ∀ x, p.costOf (crop p.sourceCount p.destinationCount x) = p.balance.costOf x := by
  have h := fault?_eq_none_iff.mp hp
  refine ⟨fault?_eq_none_iff.mpr h.balance, Scalar.isNegligible_iff.mpr (abs_surplus_balance_le p),
    h.leads_balance, h.balance_balance, ?_, h.costOf_crop⟩
  rcases p.balance_cases with ⟨hpos, heq⟩ | ⟨hneg, heq⟩ | ⟨hle, heq⟩
  · rw [heq]
    exact .inl ⟨hpos, rfl, List.length_append, bijOn_crop_column p.surplus_eq.symm⟩
  · rw [heq]
    refine .inr (.inl ⟨hneg, List.length_append, rfl, bijOn_crop_row ?_⟩)
    rw [surplus_eq, neg_sub]
  · rw [heq]
    exact .inr (.inr ⟨hle, rfl, rfl⟩)

def factory : TransportProblem ℚ where
  supply := [10]
  demand := [15, 5]
  costs := [[3, 4]]
  supplyLabels := ["Factory"]
  demandLabels := []

theorem plans_of_factory : factory.fault? = none ∧ factory.balance.fault? = none ∧
    factory.balance.supply = [10, 10] ∧
    Set.BijOn (crop 1 2) {x | Ships [10, 10] [15, 5] (· = ·) (· = ·) x}
      {x | Ships [10] [15, 5] (· = ·) (· ≤ ·) x} ∧
    ∀ x, factory.costOf (crop 1 2 x) = factory.balance.costOf x := by
  have hp : factory.fault? = none := by decide +kernel
  have hsurplus : factory.surplus < -Scalar.tolerance := by decide +kernel
  have hsupply : factory.balance.supply = [10, 10] := by decide +kernel
  have hdemand : factory.balance.demand = [15, 5] := by decide +kernel
  obtain ⟨hbalance, -, -, -, hcases, hcost⟩ := plans_of_balance hp
  refine ⟨hp, hbalance, hsupply, ?_, hcost⟩
  rcases hcases with ⟨hpos, -⟩ | ⟨-, -, -, hplans⟩ | ⟨hle, -⟩
  · exact absurd (hsurplus.trans (neg_lt_zero.mpr Scalar.tolerance_pos))
      (Scalar.tolerance_pos.trans hpos).not_gt
  · rw [hsupply, hdemand] at hplans
    exact hplans
  · exact absurd (abs_le.mp hle).1 hsurplus.not_ge

end TransportProblem

end Optima
