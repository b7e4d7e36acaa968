import Mathlib
import Optima.Proofs.Transport.Spanning

namespace Optima.Transport

variable {p : TransportProblem ℚ} {s : State ℚ} {plan : Plan ℚ} {first c d : Cell}
  {path : List Cell} {alongRow : Bool} {n N : ℕ}

/-- A trail ends where it would go on along a line. -/
def ComesTo (plan : Plan ℚ) (first : Cell) : ℕ ⊕ ℕ → Prop
  | .inl i => ∃ path, Trail plan first path true ∧ (path.headD first).row = i
  | .inr j => ∃ path, Trail plan first path false ∧ (path.headD first).column = j

namespace Trail

theorem first_mem (h : Trail plan first path alongRow) : first ∈ path := by
  induction h with
  | start => exact List.mem_singleton_self first
  | row _ _ _ _ ih | column _ _ _ _ ih => exact List.mem_cons_of_mem _ ih

theorem head_mem (h : Trail plan first path alongRow) : path.headD first ∈ path := by
  cases h <;> exact List.mem_cons_self

theorem comesTo_of_mem (h : Trail plan first path alongRow) (hc : c ∈ path) (hne : c ≠ first) :
    ComesTo plan first (.inl c.row) ∧ ComesTo plan first (.inr c.column) := by
  induction h with
  | start => exact absurd (List.mem_singleton.mp hc) hne
  | @row path d htrail hd hbasic hnew ih =>
    rcases List.mem_cons.mp hc with rfl | hc
    · exact ⟨⟨path, htrail, hd.symm⟩, c :: path, htrail.row hd hbasic hnew, rfl⟩
    · exact ih hc
  | @column path d htrail hd hbasic hnew ih =>
    rcases List.mem_cons.mp hc with rfl | hc
    · exact ⟨⟨c :: path, htrail.column hd hbasic hnew, rfl⟩, path, htrail, hd.symm⟩
    · exact ih hc

/-- A trail that comes back to the column of its first cell has gone through three others. -/
theorem four_le_length (h : Trail plan first path false)
    (hclosed : (path.headD first).column = first.column) : 4 ≤ path.length := by
  cases h with
  | @row path c h hc _ hnew =>
    cases h with
    | start =>
      -- a single other cell would be in the row and the column of the first
      refine absurd ?_ hnew
      obtain ⟨i, j⟩ := c
      obtain ⟨i', j'⟩ := first
      obtain rfl : i = i' := hc
      obtain rfl : j = j' := hclosed
      exact List.mem_singleton_self _
    | @column path d h =>
      cases h with
      | @row path e h =>
        have hodd : path.length % 2 = 1 := h.length_mod_two
        simp only [List.length_cons]
        omega

end Trail

theorem comesTo_iff (hbasic : plan.isBasic c = true) (hne : c ≠ first) :
    ComesTo plan first (.inl c.row) ↔ ComesTo plan first (.inr c.column) := by
  constructor
  · rintro ⟨path, htrail, hrow⟩
    by_cases hc : c ∈ path
    · exact (htrail.comesTo_of_mem hc hne).2
    · exact ⟨c :: path, htrail.row hrow.symm hbasic hc, rfl⟩
  · rintro ⟨path, htrail, hcolumn⟩
    by_cases hc : c ∈ path
    · exact (htrail.comesTo_of_mem hc hne).1
    · exact ⟨c :: path, htrail.column hcolumn.symm hbasic hc, rfl⟩

/-- Through a cell without a shipment there is a loop. -/
theorem exists_closed_trail (hspans : p.Spans plan.cells)
    (hbasic : ∀ c ∈ plan.cells, plan.isBasic c = true)
    (hinside : first.row < p.sourceCount ∧ first.column < p.destinationCount)
    (hfirst : first ∉ plan.cells) :
    ∃ path, Trail plan first path false ∧ (path.headD first).column = first.column :=
  hspans.forall_lines (P := ComesTo plan first)
    (fun c hc => comesTo_iff (hbasic c hc) (ne_of_mem_of_not_mem hc hfirst))
    (TransportProblem.inl_mem_lines.mpr hinside.1) ⟨[first], .start, rfl⟩ (.inr first.column)
    (TransportProblem.inr_mem_lines.mpr hinside.2)

section Search

open State

theorem State.mem_nextCells_row (hrow : c.row = d.row) (hne : c ≠ d)
    (hc : c.column < s.columnCount) : c ∈ s.nextCells d true := by
  refine List.mem_map.mpr ⟨c.column, List.mem_filter.mpr ⟨List.mem_range.mpr hc, ?_⟩, ?_⟩
  · refine decide_eq_true fun hcolumn => hne ?_
    cases c
    cases d
    simp_all
  · rw [← hrow]

theorem State.mem_nextCells_column (hcolumn : c.column = d.column) (hne : c ≠ d)
    (hc : c.row < s.rowCount) : c ∈ s.nextCells d false := by
  refine List.mem_map.mpr ⟨c.row, List.mem_filter.mpr ⟨List.mem_range.mpr hc, ?_⟩, ?_⟩
  · refine decide_eq_true fun hrow => hne ?_
    cases c
    cases d
    simp_all
  · rw [← hcolumn]

theorem State.isSome_extendLoop? (hc : c ∈ s.nextCells (path.headD first) alongRow)
    (hbasic : s.plan.isBasic c = true) (hnew : c ∉ path)
    (h : (s.extendLoop? first n (c :: path) (!alongRow)).isSome) :
    (s.extendLoop? first (n + 1) path alongRow).isSome := by
  rw [extendLoop?, List.findSome?_isSome_iff]
  refine ⟨c, hc, ?_⟩
  split_ifs with hclose hextend
  · rfl
  · exact h
  · simp [hbasic, hnew] at hextend

theorem State.isSome_extendLoop?_of_closed (h : Trail s.plan first path false)
    (hclosed : (path.headD first).column = first.column) (hrow : first.row < s.rowCount) :
    (s.extendLoop? first (n + 1) path false).isSome := by
  have hlength := h.four_le_length hclosed
  have hne : first ≠ path.headD first := by
    cases h with
    | row h _ _ hnew => exact ne_of_mem_of_not_mem h.first_mem hnew
  rw [extendLoop?, List.findSome?_isSome_iff]
  refine ⟨first, mem_nextCells_column hclosed.symm hne hrow, ?_⟩
  rw [if_pos (by simpa using hlength)]
  rfl

/-- If the search succeeds at the end of a trail, it does so from the first cell. -/
theorem Trail.isSome_extendLoop? (h : Trail s.plan first path alongRow)
    (hinside : ∀ c ∈ path, c.row < s.rowCount ∧ c.column < s.columnCount) (hN : path.length < N)
    (hfound : ∀ n, N ≤ n + path.length → (s.extendLoop? first n path alongRow).isSome) :
    ∀ n, N ≤ n + 1 → (s.extendLoop? first n [first] true).isSome := by
  -- back along the trail, as the bound and the length keep their sum
  induction h with
  | start => exact hfound
  | @row path c h hc hbasic hnew ih =>
    rw [List.length_cons] at hN
    refine ih (fun d hd => hinside d (List.mem_cons_of_mem c hd)) (by omega) fun n hn => ?_
    obtain ⟨n, rfl⟩ : ∃ k, n = k + 1 := ⟨n - 1, by omega⟩
    refine State.isSome_extendLoop? (mem_nextCells_row hc ?_ ?_) hbasic hnew (hfound n ?_)
    · exact (ne_of_mem_of_not_mem h.head_mem hnew).symm
    · exact (hinside c List.mem_cons_self).2
    · rw [List.length_cons]
      omega
  | @column path c h hc hbasic hnew ih =>
    rw [List.length_cons] at hN
    refine ih (fun d hd => hinside d (List.mem_cons_of_mem c hd)) (by omega) fun n hn => ?_
    obtain ⟨n, rfl⟩ : ∃ k, n = k + 1 := ⟨n - 1, by omega⟩
    refine State.isSome_extendLoop? (mem_nextCells_column hc ?_ ?_) hbasic hnew (hfound n ?_)
    · exact (ne_of_mem_of_not_mem h.head_mem hnew).symm
    · exact (hinside c List.mem_cons_self).1
    · rw [List.length_cons]
      omega

/-- The search finds a loop through every cell without a shipment. -/
theorem State.exists_closedLoop? (hs : s.problem = p) (htree : Tree p s.plan)
    (hbasic : ∀ c ∈ s.plan.cells, s.plan.isBasic c = true)
    (hcells : ∀ c ∈ s.plan.cells, c.row < p.sourceCount ∧ c.column < p.destinationCount)
    (hinside : first.row < p.sourceCount ∧ first.column < p.destinationCount)
    (hfirst : first ∉ s.plan.cells) : ∃ cells, s.closedLoop? first = some cells := by
  obtain ⟨path, htrail, hclosed⟩ := exists_closed_trail htree.spans hbasic hinside hfirst
  subst hs
  have hsubset : path ⊆ first :: s.plan.cells := fun c hc =>
    List.mem_cons.mpr ((htrail.isBasic_of_mem hc).imp_right Plan.mem_of_isBasic)
  have hlength := (List.subperm_of_subset htrail.nodup hsubset).length_le
  have hcount := htree.count
  simp only [List.length_cons, Plan.cells, List.length_map] at hlength
  have hpath : ∀ c ∈ path, c.row < s.rowCount ∧ c.column < s.columnCount := by
    intro c hc
    rcases List.mem_cons.mp (hsubset hc) with rfl | hc
    · exact hinside
    · exact hcells c hc
  refine Option.isSome_iff_exists.mp ?_
  refine htrail.isSome_extendLoop? (N := s.rowCount + s.columnCount + 1) hpath ?_ (fun n hn => ?_)
    (s.rowCount + s.columnCount) le_rfl
  · simp only [State.rowCount, State.columnCount]
    omega
  · obtain ⟨n, rfl⟩ : ∃ k, n = k + 1 := ⟨n - 1, by
      simp only [State.rowCount, State.columnCount] at hn
      omega⟩
    exact isSome_extendLoop?_of_closed htrail hclosed hinside.1

end Search

end Optima.Transport
