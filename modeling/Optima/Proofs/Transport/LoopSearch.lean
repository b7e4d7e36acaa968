import Mathlib
import Optima.Proofs.Transport.LoopLines

namespace Optima

namespace Plan

variable {F : Type} [Scalar F] {p : Plan F} {c : Cell}

theorem mem_basicCells :
    c ∈ p.basicCells ↔ ∃ s ∈ p, Scalar.tolerance < s.amount ∧ s.cell = c := by
  simp only [basicCells, List.mem_map, List.mem_filter, decide_eq_true_iff, and_assoc]

/-- In a plan in order the search by halves finds the basic cells and no others. -/
theorem InOrder.isBasic_iff (h : p.InOrder) (hzero : ¬ (Scalar.tolerance : F) < 0) :
    p.isBasic c = true ↔ c ∈ p.basicCells := by
  rw [isBasic, decide_eq_true_iff, amount, h.shipment?_eq, mem_basicCells]
  constructor
  · intro hlt
    cases hs : p.find? fun s => decide (s.cell = c) with
    | none =>
      rw [hs] at hlt
      exact absurd hlt hzero
    | some s =>
      rw [hs] at hlt
      have hcell := List.find?_some hs
      exact ⟨s, List.mem_of_find?_eq_some hs, hlt, of_decide_eq_true hcell⟩
  · rintro ⟨s, hs, hlt, rfl⟩
    have hfind : p.find? (fun t => decide (t.cell = s.cell)) = some s := by
      -- no shipment before this one has its cell
      obtain ⟨before, after, rfl⟩ := List.append_of_mem hs
      refine List.find?_eq_some_iff_append.mpr ⟨decide_eq_true rfl, before, after, rfl, ?_⟩
      intro t ht
      have hprecedes := (List.pairwise_append.mp h).2.2 t ht s List.mem_cons_self
      rw [Bool.not_eq_true', decide_eq_false_iff_not]
      intro heq
      rw [heq, Cell.precedes_irrefl] at hprecedes
      exact Bool.false_ne_true hprecedes
    rw [hfind]
    exact hlt

end Plan

namespace Transport

open Improvement

section Cutting

variable {plan : Plan ℚ} {first c : Cell} {path : List Cell} {alongRow : Bool} {l : ℕ ⊕ ℕ}

/-- The lines along which a trail has gone on or is to go on, the last one first. -/
def linesOf : Bool → List Cell → List (ℕ ⊕ ℕ)
  | _, [] => []
  | alongRow, c :: path => c.line alongRow :: linesOf (!alongRow) path

theorem length_linesOf (alongRow : Bool) (path : List Cell) :
    (linesOf alongRow path).length = path.length := by
  induction path generalizing alongRow with
  | nil => rfl
  | cons c path ih => rw [linesOf, List.length_cons, List.length_cons, ih]

theorem exists_of_mem_linesOf (hl : l ∈ linesOf alongRow path) :
    ∃ c ∈ path, ∃ flag, l = c.line flag := by
  induction path generalizing alongRow with
  | nil => exact absurd hl List.not_mem_nil
  | cons c path ih =>
    rcases List.mem_cons.mp hl with rfl | hl
    · exact ⟨c, List.mem_cons_self, alongRow, rfl⟩
    · obtain ⟨d, hd, hline⟩ := ih hl
      exact ⟨d, List.mem_cons_of_mem c hd, hline⟩

theorem isLeft_line (c : Cell) (alongRow : Bool) : (c.line alongRow).isLeft = alongRow := by
  cases alongRow <;> rfl

namespace Trail

theorem cons (h : Trail plan first path alongRow)
    (hline : c.line alongRow = (path.headD first).line alongRow) (hbasic : plan.isBasic c = true)
    (hnew : c ∉ path) : Trail plan first (c :: path) (!alongRow) := by
  cases alongRow with
  | true => exact h.row (Sum.inl_injective hline) hbasic hnew
  | false => exact h.column (Sum.inr_injective hline) hbasic hnew

theorem exists_suffix_of_line (h : Trail plan first path alongRow)
    (hl : l ∈ linesOf alongRow path) :
    ∃ before, Trail plan first before l.isLeft ∧ (before.headD first).line l.isLeft = l ∧
      before ⊆ path ∧ linesOf l.isLeft before <:+ linesOf alongRow path := by
  induction path generalizing alongRow with
  | nil => exact absurd hl List.not_mem_nil
  | cons c path ih =>
    rcases List.mem_cons.mp hl with rfl | hl
    · rw [isLeft_line]
      exact ⟨c :: path, h, rfl, List.Subset.refl _, List.suffix_refl _⟩
    · rcases h.cons_cases with ⟨-, rfl, -⟩ | ⟨hbefore, -, -, -⟩
      · exact absurd hl List.not_mem_nil
      · obtain ⟨before, htrail, hends, hsubset, hsuffix⟩ := ih hbefore hl
        exact ⟨before, htrail, hends, List.subset_cons_of_subset c hsubset,
          hsuffix.trans (List.suffix_cons _ _)⟩

/-- To where a trail comes there is one that goes on along every line at most once. -/
theorem exists_direct (h : Trail plan first path alongRow) :
    ∃ direct, Trail plan first direct alongRow ∧ direct ⊆ path ∧
      (direct.headD first).line alongRow = (path.headD first).line alongRow ∧
      (linesOf alongRow direct).Nodup := by
  induction path generalizing alongRow with
  | nil => exact absurd h.first_mem List.not_mem_nil
  | cons c path ih =>
    rcases h.cons_cases with ⟨rfl, rfl, rfl⟩ | ⟨hbefore, hshared, hbasic, hnew⟩
    · exact ⟨[c], .start, List.Subset.refl _, rfl, List.nodup_singleton _⟩
    · obtain ⟨direct, htrail, hsubset, hline, hnodup⟩ := ih hbefore
      -- where the trail would come to a line again, it is cut back to the first time
      by_cases hl : c.line alongRow ∈ linesOf (!alongRow) direct
      · obtain ⟨cut, hcut, hends, hcells, hsuffix⟩ := htrail.exists_suffix_of_line hl
        rw [isLeft_line] at hcut hends hsuffix
        have hcells := List.subset_cons_of_subset c (List.Subset.trans hcells hsubset)
        exact ⟨cut, hcut, hcells, hends, hnodup.sublist hsuffix.sublist⟩
      · have hnext := htrail.cons (hshared.trans hline.symm) hbasic fun hmem => hnew (hsubset hmem)
        rw [Bool.not_not] at hnext
        exact ⟨c :: direct, hnext, List.cons_subset_cons c hsubset, rfl,
          List.nodup_cons.mpr ⟨hl, hnodup⟩⟩

end Trail

/-- Cells of a table that go on along every line at most once are no more than its lines. -/
theorem length_le_of_nodup_linesOf {p : TransportProblem ℚ} (hnodup : (linesOf alongRow path).Nodup)
    (hinside : ∀ c ∈ path, c.row < p.sourceCount ∧ c.column < p.destinationCount) :
    path.length ≤ p.sourceCount + p.destinationCount := by
  rw [← length_linesOf alongRow, ← List.toFinset_card_of_nodup hnodup, ← p.card_lines]
  apply Finset.card_le_card
  intro l hl
  obtain ⟨c, hc, flag, rfl⟩ := exists_of_mem_linesOf (List.mem_toFinset.mp hl)
  cases flag with
  | true => exact TransportProblem.inl_mem_lines.mpr (hinside c hc).1
  | false => exact TransportProblem.inr_mem_lines.mpr (hinside c hc).2

/-- Where there is a loop of any length, the search finds one. -/
theorem IsLoop.isSome_closedLoop? {s : State ℚ} {cells : List Cell}
    (h : IsLoop s.plan first cells)
    (hinside : ∀ c ∈ cells, c.row < s.rowCount ∧ c.column < s.columnCount) :
    (s.closedLoop? first).isSome := by
  obtain ⟨path, htrail, hclosed, -, rfl⟩ := h
  obtain ⟨direct, hdirect, hsubset, hline, hnodup⟩ := htrail.exists_direct
  have hcells : ∀ c ∈ direct, c.row < s.rowCount ∧ c.column < s.columnCount :=
    fun c hc => hinside c (List.mem_reverse.mpr (hsubset hc))
  have hlength : direct.length ≤ s.rowCount + s.columnCount :=
    length_le_of_nodup_linesOf hnodup hcells
  refine hdirect.isSome_extendLoop? (N := s.rowCount + s.columnCount + 1) hcells (by omega)
    (fun n hn => ?_) (s.rowCount + s.columnCount) le_rfl
  obtain ⟨n, rfl⟩ : ∃ k, n = k + 1 := ⟨n - 1, by omega⟩
  exact State.isSome_extendLoop?_of_closed hdirect ((Sum.inr_injective hline).trans hclosed)
    (hcells first hdirect.first_mem).1

end Cutting

section Numbers

variable {F G : Type} [Scalar F] [Scalar G] {s : State F} {t : State G} {first c : Cell}

/-- Searches in tables of the same size with the same basic cells are the same. -/
theorem State.extendLoop?_congr (hrows : s.rowCount = t.rowCount)
    (hcolumns : s.columnCount = t.columnCount)
    (hbasic : ∀ c, s.plan.isBasic c = t.plan.isBasic c) (n : ℕ) (path : List Cell)
    (alongRow : Bool) :
    s.extendLoop? first n path alongRow = t.extendLoop? first n path alongRow := by
  induction n generalizing path alongRow with
  | zero => rfl
  | succ n ih =>
    have hnext : s.nextCells = t.nextCells := by
      funext c alongRow
      rw [nextCells, nextCells, hrows, hcolumns]
    rw [extendLoop?, extendLoop?, hnext]
    simp only [hbasic, ih]

/-- A state over the fractions with a table of the same size, in which one unit goes through every
basic cell. -/
def State.outline (s : State F) : State ℚ :=
  { firstState ⟨List.replicate s.rowCount 0, List.replicate s.columnCount 0, [], [], []⟩
      .northwestCorner with
    plan := s.plan.basicCells.map fun c => ⟨c, 1⟩ }

theorem State.rowCount_outline (s : State F) : s.outline.rowCount = s.rowCount :=
  List.length_replicate

theorem State.columnCount_outline (s : State F) : s.outline.columnCount = s.columnCount :=
  List.length_replicate

theorem State.basicCells_outline (s : State F) :
    s.outline.plan.basicCells = s.plan.basicCells := by
  rw [outline, Plan.basicCells, List.filter_eq_self.mpr, List.map_map]
  · exact List.map_id' _
  · intro t ht
    obtain ⟨c, -, rfl⟩ := List.mem_map.mp ht
    exact decide_eq_true Scalar.tolerance_lt_one

theorem State.inOrder_outline (h : s.plan.InOrder) : s.outline.plan.InOrder := by
  refine List.pairwise_map.mpr ?_
  exact List.pairwise_map.mpr (h.sublist List.filter_sublist)

theorem State.isBasic_outline (h : s.plan.InOrder) (hzero : ¬ (Scalar.tolerance : F) < 0)
    (c : Cell) : s.outline.plan.isBasic c = s.plan.isBasic c := by
  rw [Bool.eq_iff_iff, (inOrder_outline h).isBasic_iff Scalar.tolerance_pos.not_gt,
    h.isBasic_iff hzero, basicCells_outline]

theorem State.closedLoop?_outline (h : s.plan.InOrder) (hzero : ¬ (Scalar.tolerance : F) < 0)
    (c : Cell) : s.outline.closedLoop? c = s.closedLoop? c := by
  rw [closedLoop?, closedLoop?, rowCount_outline, columnCount_outline]
  exact extendLoop?_congr s.rowCount_outline s.columnCount_outline (isBasic_outline h hzero) _ _ _

/-- In a plan in order of any basic cells, over any numbers, the search from a cell that is not
basic returns a closed loop whose other cells are basic, with as many gaining as losing cells in
every line, and it returns nothing exactly if there is no such loop of any length. -/
theorem closedLoop?_sound_complete (hzero : ¬ (Scalar.tolerance : F) < 0) (horder : s.plan.InOrder)
    (hinside : ∀ t ∈ s.plan, t.cell.row < s.rowCount ∧ t.cell.column < s.columnCount)
    (hc : c.row < s.rowCount ∧ c.column < s.columnCount) (hnot : c ∉ s.plan.basicCells) :
    (∀ cells, s.closedLoop? c = some cells →
      (∃ rest, cells = c :: rest ∧ ClosedLoop c rest ∧ rest ⊆ s.plan.basicCells) ∧
      4 ≤ cells.length ∧
      (∀ i, (gaining cells).countP (·.row = i) = (losing cells).countP (·.row = i)) ∧
      ∀ j, (gaining cells).countP (·.column = j) = (losing cells).countP (·.column = j)) ∧
    (s.closedLoop? c = none ↔ ∀ rest, ClosedLoop c rest → ¬ rest ⊆ s.plan.basicCells) := by
  have hbasic (d : Cell) : s.outline.plan.isBasic d = true ↔ d ∈ s.plan.basicCells := by
    rw [State.isBasic_outline horder hzero, horder.isBasic_iff hzero]
  have hloop (cells : List Cell) : IsLoop s.outline.plan c cells ↔
      ∃ rest, cells = c :: rest ∧ ClosedLoop c rest ∧ rest ⊆ s.plan.basicCells := by
    simp only [isLoop_iff, hbasic]
    rfl
  have hfound (cells : List Cell) (h : s.closedLoop? c = some cells) :
      IsLoop s.outline.plan c cells :=
    State.isLoop_of_closedLoop? ((State.closedLoop?_outline horder hzero c).trans h)
  refine ⟨fun cells h => ⟨(hloop cells).mp (hfound cells h), ?_, fun i => ?_, fun j => ?_⟩, ?_⟩
  · obtain ⟨path, -, -, hlength, rfl⟩ := hfound cells h
    rwa [List.length_reverse]
  · simpa [Cell.line] using (hfound cells h).countP_eq true (.inl i)
  · simpa [Cell.line] using (hfound cells h).countP_eq false (.inr j)
  · constructor
    · intro hnone rest hrest hsubset
      have hsome := ((hloop _).mpr ⟨rest, rfl, hrest, hsubset⟩).isSome_closedLoop? fun d hd => by
        rw [State.rowCount_outline, State.columnCount_outline]
        rcases List.mem_cons.mp hd with rfl | hd
        · exact hc
        · obtain ⟨t, ht, -, rfl⟩ := Plan.mem_basicCells.mp (hsubset hd)
          exact hinside t ht
      rw [State.closedLoop?_outline horder hzero, hnone] at hsome
      exact Bool.false_ne_true hsome
    · intro hall
      by_contra hsome
      obtain ⟨cells, hcells⟩ := Option.ne_none_iff_exists'.mp hsome
      obtain ⟨rest, -, hrest, hsubset⟩ := (hloop cells).mp (hfound cells hcells)
      exact hall rest hrest hsubset

/-- A plan of machine numbers whose basic cells make many cycles, with one negligible shipment. -/
def mesh : State Float :=
  { firstState ⟨[3, 3, 3], [2, 3, 4], [[1, 1, 1], [1, 1, 1], [1, 1, 1]], [], []⟩ .vogel with
    plan := [⟨⟨0, 0⟩, 1e-10⟩, ⟨⟨0, 1⟩, 1⟩, ⟨⟨0, 2⟩, 2⟩, ⟨⟨1, 0⟩, 1⟩, ⟨⟨1, 1⟩, 0.5⟩, ⟨⟨1, 2⟩, 1.5⟩,
      ⟨⟨2, 0⟩, 1⟩, ⟨⟨2, 1⟩, 1.5⟩, ⟨⟨2, 2⟩, 0.5⟩] }

theorem mesh_loop_found : (⟨0, 0⟩ : Cell) ∉ mesh.plan.basicCells ∧
    ∃ rest, mesh.closedLoop? ⟨0, 0⟩ = some (⟨0, 0⟩ :: rest) ∧ ClosedLoop ⟨0, 0⟩ rest ∧
      rest ⊆ mesh.plan.basicCells := by
  obtain ⟨hzero, horder, hinside, hnot, hbasic⟩ : ¬ (Scalar.tolerance : Float) < 0 ∧
      mesh.plan.InOrder ∧ (∀ t ∈ mesh.plan, t.cell.row < 3 ∧ t.cell.column < 3) ∧
      (⟨0, 0⟩ : Cell) ∉ mesh.plan.basicCells ∧
      [⟨0, 1⟩, ⟨1, 1⟩, ⟨1, 0⟩] ⊆ mesh.plan.basicCells := by
    unfold Plan.InOrder
    decide +kernel
  obtain ⟨hsome, hnone⟩ :=
    closedLoop?_sound_complete hzero horder hinside (by decide) hnot
  have hloop : ClosedLoop ⟨0, 0⟩ [⟨0, 1⟩, ⟨1, 1⟩, ⟨1, 0⟩] :=
    ⟨by decide, by decide, rfl, rfl, rfl, rfl, trivial⟩
  obtain ⟨cells, hcells⟩ :=
    Option.ne_none_iff_exists'.mp fun h => hnone.mp h _ hloop hbasic
  obtain ⟨⟨rest, rfl, hrest⟩, -⟩ := hsome cells hcells
  exact ⟨hnot, rest, hcells, hrest⟩

end Numbers

end Transport

end Optima
