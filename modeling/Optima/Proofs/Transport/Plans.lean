import Mathlib
import Optima.Proofs.Scalar
import Optima.Transport.PlanOrder

namespace Optima

namespace Cell

def place (c : Cell) : ℕ ×ₗ ℕ := toLex (c.row, c.column)

theorem place_lt_place {a b : Cell} :
    a.place < b.place ↔ a.row < b.row ∨ a.row = b.row ∧ a.column < b.column :=
  Prod.Lex.toLex_lt_toLex

theorem precedes_iff_place_lt {a b : Cell} : a.precedes b = true ↔ a.place < b.place := by
  rw [precedes_iff, place_lt_place]

theorem pairwise_map_row {columns : List ℕ} (h : columns.Pairwise (· < ·)) (i : ℕ) :
    (columns.map fun j => (⟨i, j⟩ : Cell)).Pairwise fun c d => c.place < d.place := by
  refine List.pairwise_map.mpr (h.imp fun hlt => ?_)
  exact place_lt_place.mpr (.inr ⟨rfl, hlt⟩)

theorem pairwise_map_column {rows : List ℕ} (h : rows.Pairwise (· < ·)) (j : ℕ) :
    (rows.map fun i => (⟨i, j⟩ : Cell)).Pairwise fun c d => c.place < d.place := by
  refine List.pairwise_map.mpr (h.imp fun hlt => ?_)
  exact place_lt_place.mpr (.inl hlt)

/-- Rows in order and columns in order make cells in reading order. -/
theorem pairwise_flatMap {rows columns : List ℕ} (hrows : rows.Pairwise (· < ·))
    (hcolumns : columns.Pairwise (· < ·)) :
    (rows.flatMap fun i => columns.map fun j => (⟨i, j⟩ : Cell)).Pairwise
      fun c d => c.place < d.place := by
  refine List.pairwise_flatMap.mpr ⟨fun i _ => pairwise_map_row hcolumns i, ?_⟩
  refine hrows.imp fun hlt c hc d hd => ?_
  obtain ⟨j, -, rfl⟩ := List.mem_map.mp hc
  obtain ⟨k, -, rfl⟩ := List.mem_map.mp hd
  exact place_lt_place.mpr (.inl hlt)

end Cell

namespace Plan

variable {p q r : Plan ℚ} {s : Shipment ℚ} {c d : Cell} {x : ℚ} {g : Cell → ℚ}

def cells (p : Plan ℚ) : List Cell := p.map fun s => s.cell

/-- The amounts, each times the weight of its cell. -/
def weigh (g : Cell → ℚ) (p : Plan ℚ) : ℚ := (p.map fun s => g s.cell * s.amount).sum

def sent (p : Plan ℚ) (i : ℕ) : ℚ := ((p.filter fun s => s.cell.row = i).map (·.amount)).sum

def received (p : Plan ℚ) (j : ℕ) : ℚ := ((p.filter fun s => s.cell.column = j).map (·.amount)).sum

@[simp] theorem weigh_nil : weigh g [] = 0 := rfl

@[simp] theorem weigh_cons : weigh g (s :: p) = g s.cell * s.amount + p.weigh g :=
  List.sum_cons

@[simp] theorem weigh_append : weigh g (p ++ q) = p.weigh g + q.weigh g := by
  rw [weigh, List.map_append, List.sum_append]
  rfl

theorem mem_cells (h : s ∈ p) : s.cell ∈ p.cells := List.mem_map_of_mem h

theorem cost_eq (p : Plan ℚ) (unitCost : Cell → ℚ) : p.cost unitCost = p.weigh unitCost :=
  Scalar.sum_eq _

theorem weigh_ite (f : Shipment ℚ → Prop) [DecidablePred f]
    (hg : ∀ s, g s.cell = if f s then 1 else 0) :
    p.weigh g = ((p.filter fun s => f s).map (·.amount)).sum := by
  induction p with
  | nil => rfl
  | cons s p ih =>
    rw [weigh_cons, ih, hg]
    by_cases hs : f s <;> simp [hs]

theorem sent_eq (p : Plan ℚ) (i : ℕ) : p.sent i = p.weigh fun c => if c.row = i then 1 else 0 :=
  (weigh_ite (fun s => s.cell.row = i) fun _ => rfl).symm

theorem received_eq (p : Plan ℚ) (j : ℕ) :
    p.received j = p.weigh fun c => if c.column = j then 1 else 0 :=
  (weigh_ite (fun s => s.cell.column = j) fun _ => rfl).symm

theorem weigh_add (f g : Cell → ℚ) : p.weigh (fun c => f c + g c) = p.weigh f + p.weigh g := by
  induction p with
  | nil => simp
  | cons s p ih =>
    simp only [weigh_cons, ih]
    ring

theorem weigh_congr {f : Cell → ℚ} (h : ∀ c ∈ p.cells, f c = g c) : p.weigh f = p.weigh g := by
  unfold weigh
  congr 1
  exact List.map_congr_left fun s hs => by rw [h _ (mem_cells hs)]

theorem weigh_line {m : ℕ} (line : Cell → ℕ) (u : ℕ → ℚ) (h : ∀ c ∈ p.cells, line c < m) :
    p.weigh (fun c => u (line c)) =
      ∑ i ∈ Finset.range m, u i * p.weigh fun c => if line c = i then 1 else 0 := by
  induction p with
  | nil => simp
  | cons s p ih =>
    have hs : line s.cell ∈ Finset.range m := Finset.mem_range.mpr (h _ (mem_cells (by simp)))
    rw [weigh_cons, ih fun c hc => h c (List.mem_cons_of_mem _ hc)]
    simp only [weigh_cons, mul_add, Finset.sum_add_distrib, ite_mul, one_mul, zero_mul, mul_ite,
      mul_zero, Finset.sum_ite_eq, hs, if_true]

theorem weigh_eq_zero (h : ∀ s ∈ p, s.amount = 0) : p.weigh g = 0 := by
  refine List.sum_eq_zero fun x hx => ?_
  obtain ⟨s, hs, rfl⟩ := List.mem_map.mp hx
  rw [h s hs, mul_zero]

theorem weigh_filter_add (f : Shipment ℚ → Bool) :
    weigh g (p.filter f) + weigh g (p.filter fun s => !f s) = p.weigh g := by
  induction p with
  | nil => exact add_zero _
  | cons s p ih =>
    rw [weigh_cons, ← ih]
    cases hs : f s with
    | true =>
      rw [List.filter_cons_of_pos hs, List.filter_cons_of_neg (by simp [hs]), weigh_cons, add_assoc]
    | false =>
      rw [List.filter_cons_of_neg (by simp [hs]), List.filter_cons_of_pos (by simp [hs]),
        weigh_cons, add_left_comm]

section Lookup

theorem mem_of_shipment? (h : p.shipment? c = some s) : s ∈ p ∧ s.cell = c := by
  obtain ⟨hs, hc⟩ := Option.filter_eq_some_iff.mp h
  exact ⟨List.mem_of_getElem? hs, of_decide_eq_true hc⟩

theorem amount_eq_zero (h : c ∉ p.cells) : p.amount c = 0 := by
  unfold amount
  cases hs : p.shipment? c with
  | none => rfl
  | some s =>
    obtain ⟨hmem, rfl⟩ := mem_of_shipment? hs
    exact absurd (mem_cells hmem) h

theorem amount_nonneg (h : ∀ c ∈ p.cells, 0 ≤ p.amount c) (c : Cell) : 0 ≤ p.amount c := by
  by_cases hc : c ∈ p.cells
  · exact h c hc
  · exact (amount_eq_zero hc).ge

theorem mem_of_isBasic (h : p.isBasic c = true) : c ∈ p.cells := by
  by_contra hc
  rw [isBasic, amount_eq_zero hc, decide_eq_true_iff] at h
  exact absurd Scalar.tolerance_pos h.not_gt

namespace InOrder

theorem tail (h : InOrder (s :: p)) : p.InOrder := (List.pairwise_cons.mp h).2

theorem nodup (h : p.InOrder) : p.cells.Nodup := by
  refine List.pairwise_map.mpr (h.imp fun hst heq => ?_)
  rw [heq, Cell.precedes_irrefl] at hst
  exact Bool.false_ne_true hst

theorem notMem_cells (h : InOrder (s :: p)) (hc : c = s.cell ∨ c.precedes s.cell) :
    c ∉ p.cells := by
  intro hmem
  obtain ⟨t, ht, rfl⟩ := List.mem_map.mp hmem
  have hst := (List.pairwise_cons.mp h).1 t ht
  rcases hc with hc | hc
  · rw [hc, Cell.precedes_irrefl] at hst
    exact Bool.false_ne_true hst
  · rw [Cell.precedes_asymm hst] at hc
    exact Bool.false_ne_true hc

theorem amount_eq (h : p.InOrder) (c : Cell) :
    p.amount c = p.weigh fun d => if d = c then 1 else 0 := by
  rw [amount, h.shipment?_eq]
  induction p with
  | nil => rfl
  | cons s p ih =>
    by_cases hc : s.cell = c
    · have hrest : weigh (fun d => if d = c then 1 else 0) p = weigh (fun _ => 0) p := by
        refine weigh_congr fun d hd => if_neg ?_
        rintro rfl
        exact h.notMem_cells (.inl hc.symm) hd
      rw [List.find?_cons_of_pos (by simpa using hc), weigh_cons, if_pos hc, hrest]
      simp [weigh]
    · rw [List.find?_cons_of_neg (by simpa using hc), weigh_cons, if_neg hc, ih h.tail]
      ring

theorem amount_of_mem (h : p.InOrder) (hs : s ∈ p) : p.amount s.cell = s.amount := by
  rw [amount, h.shipment?_eq]
  cases hfind : p.find? fun t => decide (t.cell = s.cell) with
  | none => simpa using List.find?_eq_none.mp hfind s hs
  | some t =>
    have hcell : t.cell = s.cell := by simpa using List.find?_some hfind
    obtain rfl := List.inj_on_of_nodup_map h.nodup (List.mem_of_find?_eq_some hfind) hs hcell
    rfl

theorem basicCells_eq (h : p.InOrder) (hbasic : ∀ c ∈ p.cells, p.isBasic c = true) :
    p.basicCells = p.cells := by
  rw [basicCells, List.filter_eq_self.mpr, cells]
  intro s hs
  rw [← h.amount_of_mem hs]
  exact hbasic s.cell (mem_cells hs)

end InOrder

end Lookup

section Change

theorem mem_alterInOrder {change : ℚ → ℚ} {fresh : Option ℚ}
    (h : s ∈ alterInOrder c change fresh p) : s.cell = c ∨ s ∈ p := by
  induction p with
  | nil =>
    obtain ⟨x, -, rfl⟩ := List.mem_map.mp h
    exact .inl rfl
  | cons t p ih =>
    unfold alterInOrder at h
    split_ifs at h with hc hb
    · rcases List.mem_cons.mp h with rfl | h
      · exact .inl rfl
      · exact .inr (List.mem_cons_of_mem t h)
    · rcases List.mem_append.mp h with h | h
      · obtain ⟨x, -, rfl⟩ := List.mem_map.mp h
        exact .inl rfl
      · exact .inr h
    · rcases List.mem_cons.mp h with rfl | h
      · exact .inr List.mem_cons_self
      · exact (ih h).imp_right (List.mem_cons_of_mem t)

theorem subset_alterInOrder (c : Cell) (change : ℚ → ℚ) (fresh : Option ℚ) (p : Plan ℚ) :
    p.cells ⊆ (alterInOrder c change fresh p).cells := by
  induction p with
  | nil => exact List.nil_subset _
  | cons s p ih =>
    unfold alterInOrder
    split_ifs with hc hb
    · rw [cells, cells, List.map_cons, List.map_cons, hc]
      exact fun d hd => hd
    · rw [cells, cells, List.map_append]
      exact List.subset_append_right _ _
    · exact List.cons_subset_cons _ ih

theorem inOrder_alterInOrder (h : p.InOrder) (c : Cell) (change : ℚ → ℚ) (fresh : Option ℚ) :
    (alterInOrder c change fresh p).InOrder := by
  induction p with
  | nil => cases fresh <;> simp [alterInOrder, InOrder]
  | cons s p ih =>
    obtain ⟨hs, hp⟩ := List.pairwise_cons.mp h
    unfold alterInOrder
    split_ifs with hc hb
    · exact List.pairwise_cons.mpr ⟨fun t ht => hc ▸ hs t ht, hp⟩
    · cases fresh with
      | none => exact h
      | some x =>
        refine List.pairwise_cons.mpr ⟨fun t ht => ?_, h⟩
        rcases List.mem_cons.mp ht with rfl | ht
        · exact hb
        · exact Cell.precedes_trans hb (hs t ht)
    · refine List.pairwise_cons.mpr ⟨fun t ht => ?_, ih hp⟩
      -- a cell that neither matches nor comes before goes further on
      rcases mem_alterInOrder ht with rfl | ht
      · exact Cell.precedes_of_ne hc hb
      · exact hs t ht

theorem weigh_alterInOrder (h : p.InOrder) {fresh : Option ℚ}
    (hx : c ∈ p.cells ∨ fresh.getD 0 = x) :
    (alterInOrder c (· + x) fresh p).weigh g = p.weigh g + g c * x := by
  have weigh_fresh (hx : fresh.getD 0 = x) :
      weigh g (fresh.toList.map fun x => ⟨c, x⟩) = g c * x := by
    rw [← hx]
    cases fresh <;> simp
  induction p with
  | nil => rw [alterInOrder, weigh_fresh (hx.resolve_left (by simp [cells])), weigh_nil, zero_add]
  | cons s p ih =>
    unfold alterInOrder
    split_ifs with hc hb
    · rw [weigh_cons, weigh_cons, hc]
      ring
    -- a cell that comes before the first has no shipment later on
    · have hmem : c ∉ cells (s :: p) := by
        intro hmem
        rcases List.mem_cons.mp hmem with hmem | hmem
        · exact hc hmem.symm
        · exact h.notMem_cells (.inr hb) hmem
      rw [weigh_append, weigh_fresh (hx.resolve_left hmem)]
      ring
    · rw [weigh_cons, weigh_cons, ih h.tail (hx.imp_left fun hmem => ?_)]
      · ring
      · exact (List.mem_cons.mp hmem).resolve_left (Ne.symm hc)

/-- The second plan is the first one with amounts added to cells in turn. -/
structure Changed (changes : List (Cell × ℚ)) (p q : Plan ℚ) : Prop where
  inOrder : q.InOrder
  weigh : ∀ g, q.weigh g = p.weigh g + (changes.map fun a => g a.1 * a.2).sum
  subset : p.cells ⊆ q.cells
  mem_cells : ∀ c ∈ q.cells, c ∈ p.cells ∨ c ∈ changes.map Prod.fst

theorem changed_alter (h : p.InOrder) {fresh : Option ℚ} (hx : c ∈ p.cells ∨ fresh.getD 0 = x) :
    Changed [(c, x)] p (p.alter c (· + x) fresh) := by
  rw [h.alter_eq]
  refine ⟨inOrder_alterInOrder h _ _ _, fun g => ?_, subset_alterInOrder _ _ _ _, fun d hd => ?_⟩
  · rw [weigh_alterInOrder h hx, List.map_singleton, List.sum_singleton]
  · obtain ⟨s, hs, rfl⟩ := List.mem_map.mp hd
    rcases mem_alterInOrder hs with hs | hs
    · exact .inr (by simp [hs])
    · exact .inl (Plan.mem_cells hs)

theorem changed_add (h : p.InOrder) (c : Cell) (x : ℚ) : Changed [(c, x)] p (p.add c x) :=
  changed_alter h (.inr rfl)

theorem changed_shift (h : p.InOrder) (hx : c ∈ p.cells ∨ 0 ≤ x) :
    Changed [(c, x)] p (p.shift c x) := by
  refine changed_alter h (hx.imp_right fun hx => ?_)
  split_ifs with hpos
  · rfl
  · exact le_antisymm hx (not_lt.mp hpos)

theorem changed_foldl {changes : List (Cell × ℚ)} (h : p.InOrder)
    (hx : ∀ a ∈ changes, a.1 ∈ p.cells ∨ 0 ≤ a.2) :
    Changed changes p (changes.foldl (fun p a => p.shift a.1 a.2) p) := by
  induction changes generalizing p with
  | nil => exact ⟨h, fun g => by simp, List.Subset.refl _, fun c hc => .inl hc⟩
  | cons a changes ih =>
    have hfirst := changed_shift h (hx a List.mem_cons_self)
    have hrest := ih hfirst.inOrder fun b hb =>
      (hx b (List.mem_cons_of_mem a hb)).imp_left (@hfirst.subset _)
    refine ⟨hrest.inOrder, fun g => ?_, fun c hc => hrest.subset (hfirst.subset hc),
      fun c hc => ?_⟩
    · rw [List.foldl_cons, hrest.weigh, hfirst.weigh]
      simp [add_assoc]
    · rcases hrest.mem_cells c hc with hc | hc
      · rcases hfirst.mem_cells c hc with hc | hc
        · exact .inl hc
        · exact .inr (by simpa using .inl (List.mem_singleton.mp hc))
      · exact .inr (List.mem_cons_of_mem _ hc)

theorem Changed.amount {changes : List (Cell × ℚ)} (h : Changed changes p q) (hp : p.InOrder)
    (c : Cell) :
    q.amount c = p.amount c + (changes.map fun a => if a.1 = c then a.2 else 0).sum := by
  rw [h.inOrder.amount_eq, hp.amount_eq, h.weigh]
  simp only [ite_mul, one_mul, zero_mul]

end Change

end Plan

end Optima
