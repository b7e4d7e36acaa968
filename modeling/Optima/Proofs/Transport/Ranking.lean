import Mathlib
import Optima.Proofs.Transport.Depletion

namespace Optima

/-- The second smallest of a collection of costs less the smallest, zero with fewer than two. -/
def costGap (costs : Multiset ℚ) : ℚ :=
  match costs.sort (· ≤ ·) with
  | smallest :: second :: _ => second - smallest
  | _ => 0

def Cell.OnLine (c : Cell) (l : ℕ ⊕ ℕ) : Prop := l = .inl c.row ∨ l = .inr c.column

instance (c : Cell) (l : ℕ ⊕ ℕ) : Decidable (c.OnLine l) := inferInstanceAs (Decidable (_ ∨ _))

def Transport.Penalty.lineOf (p : Transport.Penalty ℚ) : ℕ ⊕ ℕ :=
  match p.line with
  | .row => .inl p.index
  | .column => .inr p.index

namespace Transport.State

variable {s : State ℚ} {c d : Cell} {l : ℕ ⊕ ℕ} {p : Penalty ℚ}

/-- More than a negligible amount is left of a source or a destination. -/
def LineOpen (s : State ℚ) (l : ℕ ⊕ ℕ) : Prop :=
  l ∈ s.problem.lines ∧ Scalar.tolerance < s.remaining l

/-- Something is left of the source and of the destination of a cell. -/
def CellOpen (s : State ℚ) (c : Cell) : Prop :=
  s.LineOpen (.inl c.row) ∧ s.LineOpen (.inr c.column)

instance (s : State ℚ) (l : ℕ ⊕ ℕ) : Decidable (s.LineOpen l) :=
  inferInstanceAs (Decidable (_ ∧ _))

instance (s : State ℚ) (c : Cell) : Decidable (s.CellOpen c) :=
  inferInstanceAs (Decidable (_ ∧ _))

def openCells (s : State ℚ) (l : ℕ ⊕ ℕ) : Finset Cell :=
  (Cell.table s.rowCount s.columnCount).toFinset.filter fun c => s.CellOpen c ∧ c.OnLine l

/-- What not using the cheapest open cell of a line costs at least. -/
def linePenalty (s : State ℚ) (l : ℕ ⊕ ℕ) : ℚ := costGap ((s.openCells l).val.map s.unitCost)

def rank (s : State ℚ) (c : Cell) : ℚ ×ₗ ℕ ×ₗ ℕ := toLex (s.unitCost c, c.place)

section Open

theorem lineOpen_inl {i : ℕ} : s.LineOpen (.inl i) ↔ i ∈ s.availableSources := by
  rw [mem_availableSources, LineOpen, TransportProblem.inl_mem_lines]
  rfl

theorem lineOpen_inr {j : ℕ} : s.LineOpen (.inr j) ↔ j ∈ s.availableDestinations := by
  rw [mem_availableDestinations, LineOpen, TransportProblem.inr_mem_lines]
  rfl

theorem cellOpen_iff : s.CellOpen c ↔ c ∈ s.availableCells := by
  rw [mem_availableCells, CellOpen, lineOpen_inl, lineOpen_inr]

theorem mem_openCells : c ∈ s.openCells l ↔ s.CellOpen c ∧ c.OnLine l := by
  rw [openCells, Finset.mem_filter, List.mem_toFinset, Cell.mem_table, and_iff_right_iff_imp]
  rintro ⟨⟨hrow, hcolumn⟩, -⟩
  exact ⟨TransportProblem.inl_mem_lines.mp hrow.1, TransportProblem.inr_mem_lines.mp hcolumn.1⟩

theorem exhausted_iff : s.Exhausted ↔ ∀ c, ¬ s.CellOpen c := by
  simp only [← availableCells_eq_nil, List.eq_nil_iff_forall_not_mem, cellOpen_iff]

end Open

section Places

theorem pairwise_availableSources : s.availableSources.Pairwise (· < ·) :=
  List.pairwise_lt_range.filter _

theorem pairwise_availableDestinations : s.availableDestinations.Pairwise (· < ·) :=
  List.pairwise_lt_range.filter _

theorem pairwise_lineCells (s : State ℚ) (line : Line) (i : ℕ) :
    (s.lineCells line i).Pairwise fun c d => c.place < d.place := by
  cases line with
  | row => exact Cell.pairwise_map_row pairwise_availableDestinations i
  | column => exact Cell.pairwise_map_column pairwise_availableSources i

theorem pairwise_availableCells (s : State ℚ) :
    s.availableCells.Pairwise fun c d => c.place < d.place :=
  Cell.pairwise_flatMap pairwise_availableSources pairwise_availableDestinations

end Places

section Penalties

def penaltyAt (s : State ℚ) : ℕ ⊕ ℕ → Penalty ℚ := Sum.elim (s.penaltyOf .row) (s.penaltyOf .column)

def cellsAt (s : State ℚ) (l : ℕ ⊕ ℕ) : List Cell :=
  s.lineCells (s.penaltyAt l).line (s.penaltyAt l).index

theorem lineOf_penaltyAt (s : State ℚ) (l : ℕ ⊕ ℕ) : (s.penaltyAt l).lineOf = l := by
  cases l <;> rfl

theorem mem_penalties : p ∈ s.penalties ↔ ∃ l, s.LineOpen l ∧ s.penaltyAt l = p := by
  simp only [penalties, List.mem_append, List.mem_map, Sum.exists, lineOpen_inl, lineOpen_inr,
    penaltyAt, Sum.elim_inl, Sum.elim_inr]

theorem pairwise_penalties (s : State ℚ) :
    s.penalties.Pairwise fun p q => toLex p.lineOf < toLex q.lineOf := by
  refine List.pairwise_append.mpr ⟨?_, ?_, ?_⟩
  · refine List.pairwise_map.mpr (pairwise_availableSources.imp fun hlt => ?_)
    exact Sum.Lex.inl_lt_inl_iff.mpr hlt
  · refine List.pairwise_map.mpr (pairwise_availableDestinations.imp fun hlt => ?_)
    exact Sum.Lex.inr_lt_inr_iff.mpr hlt
  · intro p hp q hq
    obtain ⟨i, -, rfl⟩ := List.mem_map.mp hp
    obtain ⟨j, -, rfl⟩ := List.mem_map.mp hq
    exact Sum.Lex.inl_lt_inr i j

theorem mem_cellsAt (hl : s.LineOpen l) : c ∈ s.cellsAt l ↔ s.CellOpen c ∧ c.OnLine l := by
  obtain ⟨i, j⟩ := c
  cases l with
  | inl k =>
    have h : (⟨i, j⟩ : Cell) ∈ s.cellsAt (.inl k) ↔ j ∈ s.availableDestinations ∧ k = i := by
      simp [cellsAt, penaltyAt, penaltyOf, lineCells]
    rw [h, CellOpen, lineOpen_inr, Cell.OnLine]
    constructor
    · rintro ⟨hj, rfl⟩
      exact ⟨⟨hl, hj⟩, .inl rfl⟩
    · rintro ⟨⟨-, hj⟩, heq | heq⟩
      · exact ⟨hj, Sum.inl.inj heq⟩
      · exact absurd heq Sum.inl_ne_inr
  | inr k =>
    have h : (⟨i, j⟩ : Cell) ∈ s.cellsAt (.inr k) ↔ i ∈ s.availableSources ∧ k = j := by
      simp [cellsAt, penaltyAt, penaltyOf, lineCells]
    rw [h, CellOpen, lineOpen_inl, Cell.OnLine]
    constructor
    · rintro ⟨hi, rfl⟩
      exact ⟨⟨hi, hl⟩, .inr rfl⟩
    · rintro ⟨⟨hi, -⟩, heq | heq⟩
      · exact absurd heq Sum.inr_ne_inl
      · exact ⟨hi, Sum.inr.inj heq⟩

/-- The costs that the method sorts are those of the open cells. -/
theorem val_openCells (hl : s.LineOpen l) :
    (s.openCells l).val = (s.cellsAt l : Multiset Cell) := by
  have hnodup : (s.cellsAt l).Nodup := (s.pairwise_lineCells _ _).imp fun hlt heq =>
    hlt.ne (congrArg Cell.place heq)
  refine (Multiset.Nodup.ext (s.openCells l).nodup (Multiset.coe_nodup.mpr hnodup)).mpr fun c => ?_
  rw [Finset.mem_val, Multiset.mem_coe, mem_openCells, mem_cellsAt hl]

theorem penalty_penaltyOf (s : State ℚ) (line : Line) (i : ℕ) :
    (s.penaltyOf line i).penalty = costGap ((s.lineCells line i).map s.unitCost : List ℚ) := by
  rw [costGap, ← Scalar.ascending_eq_sort, penaltyOf]
  rcases Scalar.ascending ((s.lineCells line i).map s.unitCost) with _ | ⟨a, _ | ⟨b, xs⟩⟩ <;> rfl

theorem penalty_penaltyAt (hl : s.LineOpen l) : (s.penaltyAt l).penalty = s.linePenalty l := by
  rw [linePenalty, val_openCells hl, Multiset.map_coe]
  cases l with
  | inl i => exact s.penalty_penaltyOf .row i
  | inr j => exact s.penalty_penaltyOf .column j

end Penalties

section Choices

theorem rank_le_of_cheapest? {cells : List Cell}
    (hcells : cells.Pairwise fun c d => c.place < d.place) (h : s.cheapest? cells = some c)
    (hd : d ∈ cells) : s.rank c ≤ s.rank d :=
  toLex_le_of_firstBest? s.unitCost (fun _ _ => decide_eq_true_iff) hcells h hd

/-- The north-west corner is the first open cell in reading order. -/
theorem place_le_of_northwest {reason : Reason ℚ}
    (h : s.select? .northwestCorner = some (c, reason)) (hd : s.CellOpen d) :
    c.place ≤ d.place := by
  obtain ⟨c', hhead, heq⟩ := Option.map_eq_some_iff.mp h
  obtain ⟨rfl, -⟩ := Prod.mk.inj heq
  obtain ⟨others, hcells⟩ := List.head?_eq_some_iff.mp hhead
  have hpairwise := s.pairwise_availableCells
  rw [hcells] at hpairwise
  rcases List.mem_cons.mp (hcells ▸ cellOpen_iff.mp hd) with rfl | hd
  · exact le_rfl
  · exact (List.rel_of_pairwise_cons hpairwise hd).le

theorem exists_of_highestPenalty? (h : s.highestPenalty? = some p) :
    ∃ l, s.LineOpen l ∧ s.penaltyAt l = p ∧ ∀ l', s.LineOpen l' →
      s.linePenalty l' ≤ s.linePenalty l ∧
      (s.linePenalty l' = s.linePenalty l → toLex l ≤ toLex l') := by
  obtain ⟨l, hl, rfl⟩ := mem_penalties.mp (mem_of_firstBest? h)
  refine ⟨l, hl, rfl, fun l' hl' => ?_⟩
  have hle := toLex_le_of_firstBest? (fun p : Penalty ℚ => OrderDual.toDual p.penalty)
    (fun _ _ => decide_eq_true_iff) s.pairwise_penalties h (mem_penalties.mpr ⟨l', hl', rfl⟩)
  rw [Prod.Lex.toLex_le_toLex, lineOf_penaltyAt, lineOf_penaltyAt, penalty_penaltyAt hl,
    penalty_penaltyAt hl', OrderDual.toDual_lt_toDual, OrderDual.toDual_inj] at hle
  rcases hle with hlt | ⟨heq, hle⟩
  · exact ⟨hlt.le, fun heq => absurd heq hlt.ne⟩
  · exact ⟨heq.ge, fun _ => hle⟩

end Choices

/-- Every method finds a cell exactly if one is open, and only open cells. The least cost method
chooses the first of the cheapest. Vogel's method chooses the first of the lines with the largest
penalty, sources before destinations, and there the first of the cheapest. -/
theorem select?_ranking (s : State ℚ) :
    (∀ m, (s.select? m = none ↔ ∀ c, ¬ s.CellOpen c) ∧
      ∀ c reason, s.select? m = some (c, reason) → s.CellOpen c) ∧
    (∀ c reason, s.select? .leastCost = some (c, reason) →
      ∀ d, s.CellOpen d → s.rank c ≤ s.rank d) ∧
    ∀ c reason, s.select? .vogel = some (c, reason) → ∃ l, s.LineOpen l ∧ c.OnLine l ∧
      (∀ l', s.LineOpen l' → s.linePenalty l' ≤ s.linePenalty l ∧
        (s.linePenalty l' = s.linePenalty l → toLex l ≤ toLex l')) ∧
      ∀ d, s.CellOpen d → d.OnLine l → s.rank c ≤ s.rank d := by
  refine ⟨fun m => ⟨⟨fun h => exhausted_iff.mp (exhausted_of_select? h), fun h => ?_⟩,
    fun c reason h => cellOpen_iff.mpr (mem_of_select? h)⟩, fun c reason h d hd => ?_,
    fun c reason h => ?_⟩
  · refine Option.eq_none_iff_forall_ne_some.mpr fun found hfound => h found.1 ?_
    exact cellOpen_iff.mpr (mem_of_select? hfound)
  · obtain ⟨c', hc', heq⟩ := Option.map_eq_some_iff.mp h
    obtain ⟨rfl, -⟩ := Prod.mk.inj heq
    exact rank_le_of_cheapest? s.pairwise_availableCells hc' (cellOpen_iff.mp hd)
  · obtain ⟨p, hp, h⟩ := Option.bind_eq_some_iff.mp h
    obtain ⟨c', hc', heq⟩ := Option.bind_eq_some_iff.mp h
    obtain ⟨rfl, -⟩ := Prod.mk.inj (Option.some.inj heq)
    obtain ⟨l, hl, rfl, hfirst⟩ := exists_of_highestPenalty? hp
    refine ⟨l, hl, ((mem_cellsAt hl).mp (mem_of_firstBest? hc')).2, hfirst, fun d hd hon => ?_⟩
    exact rank_le_of_cheapest? (s.pairwise_lineCells _ _) hc' ((mem_cellsAt hl).mpr ⟨hd, hon⟩)

/-- After a shipment of Vogel's method the first source has the largest penalty, and the dummy
destination costs least there. -/
theorem surplusDepots_second_choice : ∃ (s : State ℚ) (reason : Reason ℚ),
    start surplusDepots .vogel = .ok (firstState surplusDepots.balance .vogel) ∧
    s = (firstState surplusDepots.balance .vogel).allocateAll [.vogel] ∧
    s.select? .vogel = some (⟨0, 2⟩, reason) ∧ s.CellOpen ⟨0, 2⟩ ∧
    ∃ l, Cell.OnLine ⟨0, 2⟩ l ∧ ∀ l', s.LineOpen l' → s.linePenalty l' ≤ s.linePenalty l := by
  have hcell : (((firstState surplusDepots.balance .vogel).allocateAll [.vogel]).select?
      .vogel).map (·.1) = some ⟨0, 2⟩ := by decide +kernel
  obtain ⟨⟨c, reason⟩, hselect, rfl⟩ := Option.map_eq_some_iff.mp hcell
  obtain ⟨hopen, -, hvogel⟩ :=
    select?_ranking ((firstState surplusDepots.balance .vogel).allocateAll [.vogel])
  obtain ⟨l, -, hon, hlargest, -⟩ := hvogel _ reason hselect
  exact ⟨_, reason, start_surplusDepots, rfl, hselect, (hopen .vogel).2 _ reason hselect, l,
    hon, fun l' hl' => (hlargest l' hl').1⟩

end Transport.State

end Optima
