import Mathlib
import Optima.Proofs.Transport.Totals
import Optima.Transport.Duals

namespace Optima.Transport

namespace Duals

section Passes

variable {F : Type} {d : Duals F} {cells : List Cell} {c : Cell} {i j : ℕ}

/-- What every resolution keeps holds after any number of passes. -/
theorem propagate_induction [Scalar F] {cost : Cell → F} {P : Duals F → Prop}
    (h : ∀ d, ∀ c ∈ cells, P d → P (d.resolve cost c)) (k : ℕ) (hd : P d) :
    P (propagate cost cells k d) := by
  have pass (some : List Cell) (hsome : some ⊆ cells) (d : Duals F) (hd : P d) :
      P (some.foldl (resolve cost) d) := by
    induction some generalizing d with
    | nil => exact hd
    | cons c rest ih =>
      exact ih (fun a ha => hsome (List.mem_cons_of_mem c ha)) _ (h d c (hsome (by simp)) hd)
  induction k generalizing d with
  | zero => exact hd
  | succ k ih => exact ih (pass cells (List.Subset.refl _) d hd)

def unresolved (d : Duals F) : ℕ := d.rows.countP Option.isNone + d.columns.countP Option.isNone

theorem countP_set_some {values : List (Option F)} (hi : i < values.length)
    (h : values.getD i none = none) (x : F) :
    (values.set i (some x)).countP Option.isNone + 1 = values.countP Option.isNone := by
  rw [List.getD_eq_getElem _ _ hi] at h
  have hpos : 0 < values.countP Option.isNone :=
    List.countP_pos_iff.mpr ⟨values[i], List.getElem_mem hi, by rw [h]; rfl⟩
  rw [List.countP_set hi, h]
  simp only [Option.isNone_none, Option.isNone_some, if_true, Bool.false_eq_true, if_false]
  omega

theorem unresolved_start [Scalar F] {m : ℕ} (hm : 0 < m) (n : ℕ) :
    (start m n : Duals F).unresolved + 1 = m + n := by
  have hset := countP_set_some (show 0 < (List.replicate m (none : Option F)).length by simpa)
    (by simp [List.getD_eq_getElem?_getD, hm]) 0
  rw [List.countP_replicate] at hset
  rw [unresolved, start, List.countP_replicate]
  simp only [Option.isNone_none, if_true] at hset ⊢
  omega

theorem getD_set_of_eq_some {values : List (Option F)} (hi : i < values.length)
    (h : values.getD i none = none) {y : F} (hj : values.getD j none = some y) (x : F) :
    (values.set i (some x)).getD j none = some y := by
  rw [getD_set hi, if_neg, hj]
  rintro rfl
  rw [h] at hj
  simp at hj

theorem isSome_set_of_isSome {values : List (Option F)} (hi : i < values.length)
    (hj : (values.getD j none).isSome) (x : F) : ((values.set i (some x)).getD j none).isSome := by
  rw [getD_set hi]
  split_ifs
  · rfl
  · exact hj

theorem unresolved_eq_zero (hrows : missing d.rows = []) (hcolumns : missing d.columns = []) :
    d.unresolved = 0 := by
  have none_missing {values : List (Option F)} (h : missing values = []) :
      values.countP Option.isNone = 0 := by
    rw [List.countP_eq_zero]
    intro value hvalue
    obtain ⟨i, hi, rfl⟩ := List.getElem_of_mem hvalue
    have hi' := List.filter_eq_nil_iff.mp h i (List.mem_range.mpr hi)
    rwa [List.getD_eq_getElem _ _ hi] at hi'
  rw [unresolved, none_missing hrows, none_missing hcolumns]

def knows (d : Duals F) (c : Cell) : Bool := (d.row? c.row).isSome && (d.column? c.column).isSome

/-- Each value but one was found through a cell of its own. -/
def Found (cells : List Cell) (m n : ℕ) (d : Duals F) : Prop :=
  m + n ≤ cells.countP d.knows + 1 + d.unresolved

namespace Found

variable {m n : ℕ}

/-- A value found through a cell makes that cell known, and no other one unknown. -/
theorem of_unresolved (h : Found cells m n d) {d' : Duals F} (hc : c ∈ cells)
    (hcount : d'.unresolved + 1 = d.unresolved) (hold : ∀ a, d.knows a = true → d'.knows a = true)
    (hnot : d.knows c = false) (hnew : d'.knows c = true) : Found cells m n d' := by
  have hlt := length_filter_lt_of_imp hold (List.mem_filter.mpr ⟨hc, hnew⟩) hnot
  rw [Found, List.countP_eq_length_filter] at h ⊢
  omega

theorem resolve [Scalar F] (h : Found cells m n d) (cost : Cell → F) (hc : c ∈ cells) :
    Found cells m n (d.resolve cost c) := by
  unfold Duals.resolve
  split
  · next u hu hnone =>
    by_cases hj : c.column < d.columns.length
    · have hcount := countP_set_some hj hnone (cost c - u)
      refine h.of_unresolved hc ?_ (fun a ha => ?_) (by simp [knows, hnone]) ?_
      · simp only [unresolved]
        omega
      · simp only [knows, Bool.and_eq_true] at ha ⊢
        exact ⟨ha.1, isSome_set_of_isSome hj ha.2 _⟩
      · refine Bool.and_eq_true_iff.mpr ⟨Option.isSome_iff_exists.mpr ⟨u, hu⟩, ?_⟩
        rw [column?, getD_set hj, if_pos rfl]
        rfl
    -- a value for no line is not kept
    · rwa [List.set_eq_of_length_le (not_lt.mp hj)]
  · next v hnone hv =>
    by_cases hi : c.row < d.rows.length
    · have hcount := countP_set_some hi hnone (cost c - v)
      refine h.of_unresolved hc ?_ (fun a ha => ?_) (by simp [knows, hnone]) ?_
      · simp only [unresolved]
        omega
      · simp only [knows, Bool.and_eq_true] at ha ⊢
        exact ⟨isSome_set_of_isSome hi ha.1 _, ha.2⟩
      · refine Bool.and_eq_true_iff.mpr ⟨?_, Option.isSome_iff_exists.mpr ⟨v, hv⟩⟩
        rw [row?, getD_set hi, if_pos rfl]
        rfl
    · rwa [List.set_eq_of_length_le (not_lt.mp hi)]
  · exact h

theorem start [Scalar F] (cells : List Cell) (m n : ℕ) :
    Found cells m n (start m n : Duals F) := by
  rw [Found]
  cases m with
  | zero =>
    rw [unresolved, Duals.start, List.countP_replicate]
    simp
  | succ m =>
    have hcount := unresolved_start (F := F) (show 0 < m + 1 by omega) n
    omega

end Found

end Passes

variable {d : Duals ℚ} {cost : Cell → ℚ} {cells used : List Cell} {c : Cell} {m n i j : ℕ} {x : ℚ}

/-- The values of a cell's lines are known, and its unit cost is their sum. -/
def Exact (cost : Cell → ℚ) (d : Duals ℚ) (c : Cell) : Prop :=
  ∃ u v, d.row? c.row = some u ∧ d.column? c.column = some v ∧ cost c = u + v

structure Tied (cost : Cell → ℚ) (cells : List Cell) (m n : ℕ) (d : Duals ℚ) (used : List Cell) :
    Prop where
  rows : d.rows.length = m
  columns : d.columns.length = n
  nodup : used.Nodup
  subset : used ⊆ cells
  count : used.length + 1 + d.unresolved = m + n
  exact : ∀ c ∈ used, d.Exact cost c

namespace Tied

/-- A value that is found makes its cell exact, and leaves the others as they are. -/
theorem cons (h : Tied cost cells m n d used) {d' : Duals ℚ} (hc : c ∈ cells)
    (hrows : d'.rows.length = d.rows.length) (hcolumns : d'.columns.length = d.columns.length)
    (hcount : d'.unresolved + 1 = d.unresolved) (hnot : ¬ d.Exact cost c)
    (hold : ∀ a, d.Exact cost a → d'.Exact cost a) (hnew : d'.Exact cost c) :
    Tied cost cells m n d' (c :: used) := by
  refine ⟨hrows.trans h.rows, hcolumns.trans h.columns,
    List.nodup_cons.mpr ⟨fun hmem => hnot (h.exact c hmem), h.nodup⟩,
    List.cons_subset.mpr ⟨hc, h.subset⟩, ?_, fun a ha => ?_⟩
  · have := h.count
    rw [List.length_cons]
    omega
  · rcases List.mem_cons.mp ha with rfl | ha
    · exact hnew
    · exact hold a (h.exact a ha)

theorem column (h : Tied cost cells m n d used) (hc : c ∈ cells) (hj : c.column < n) {u : ℚ}
    (hu : d.row? c.row = some u) (hnone : d.column? c.column = none) :
    Tied cost cells m n { d with columns := d.columns.set c.column (some (cost c - u)) }
      (c :: used) := by
  have hj : c.column < d.columns.length := h.columns.symm ▸ hj
  refine h.cons hc rfl List.length_set ?_ ?_ ?_ ?_
  · have := countP_set_some hj hnone (cost c - u)
    simp only [unresolved]
    omega
  · rintro ⟨_, v, -, hv, -⟩
    simp [hnone] at hv
  · rintro a ⟨u', v, hu', hv, heq⟩
    exact ⟨u', v, hu', getD_set_of_eq_some hj hnone hv _, heq⟩
  · exact ⟨u, cost c - u, hu, (getD_set hj _ _ _).trans (if_pos rfl), by ring⟩

theorem row (h : Tied cost cells m n d used) (hc : c ∈ cells) (hi : c.row < m) {v : ℚ}
    (hnone : d.row? c.row = none) (hv : d.column? c.column = some v) :
    Tied cost cells m n { d with rows := d.rows.set c.row (some (cost c - v)) } (c :: used) := by
  have hi : c.row < d.rows.length := h.rows.symm ▸ hi
  refine h.cons hc List.length_set rfl ?_ ?_ ?_ ?_
  · have := countP_set_some hi hnone (cost c - v)
    simp only [unresolved]
    omega
  · rintro ⟨u, _, hu, -, -⟩
    simp [hnone] at hu
  · rintro a ⟨u, v', hu, hv', heq⟩
    exact ⟨u, v', getD_set_of_eq_some hi hnone hu _, hv', heq⟩
  · exact ⟨cost c - v, v, (getD_set hi _ _ _).trans (if_pos rfl), hv, by ring⟩

theorem resolve (h : ∃ used, Tied cost cells m n d used) (hc : c ∈ cells) (hi : c.row < m)
    (hj : c.column < n) : ∃ used, Tied cost cells m n (d.resolve cost c) used := by
  obtain ⟨used, h⟩ := h
  unfold Duals.resolve
  split
  · next u hu hv => exact ⟨_, h.column hc hj hu hv⟩
  · next v hu hv => exact ⟨_, h.row hc hi hu hv⟩
  · exact ⟨used, h⟩

theorem start (cost : Cell → ℚ) (cells : List Cell) (hm : 0 < m) (n : ℕ) :
    Tied cost cells m n (start m n) [] := by
  refine ⟨?_, List.length_replicate, List.nodup_nil, List.nil_subset _, ?_,
    fun c hc => absurd hc List.not_mem_nil⟩
  · exact List.length_set.trans List.length_replicate
  · have hcount := unresolved_start (F := ℚ) hm n
    rw [List.length_nil]
    omega

/-- Without a value missing, there is no cell left that was not used. -/
theorem exact_of_mem (h : Tied cost cells m n d used) (hd : d.unresolved = 0)
    (hcells : cells.length < m + n) (hc : c ∈ cells) : d.Exact cost c := by
  -- the used cells are distinct, and as many as there are
  have hcount := h.count
  have hperm := (List.subperm_of_subset h.nodup h.subset).perm_of_length_le (by omega)
  exact h.exact c (hperm.mem_iff.mpr hc)

end Tied

/-- All values found are whole numbers. -/
structure Whole (d : Duals ℚ) : Prop where
  rows : ∀ i u, d.row? i = some u → u ∈ integers
  columns : ∀ j v, d.column? j = some v → v ∈ integers

namespace Whole

theorem of_set {values : List (Option ℚ)} (h : ∀ i y, values.getD i none = some y → y ∈ integers)
    (hx : x ∈ integers) (k : ℕ) : ∀ i y, (values.set k (some x)).getD i none = some y →
    y ∈ integers := by
  intro i y hy
  rw [List.getD_eq_getElem?_getD, List.getElem?_set] at hy
  split_ifs at hy
  · exact Option.some.inj hy ▸ hx
  · simp at hy
  · exact h i y (by rwa [List.getD_eq_getElem?_getD])

theorem resolve (h : d.Whole) (hcost : ∀ c, cost c ∈ integers) (c : Cell) :
    (d.resolve cost c).Whole := by
  unfold Duals.resolve
  split
  · next u hu _ => exact ⟨h.rows, of_set h.columns (integers.sub_mem (hcost c) (h.rows _ _ hu)) _⟩
  · next v _ hv =>
    exact ⟨of_set h.rows (integers.sub_mem (hcost c) (h.columns _ _ hv)) _, h.columns⟩
  · exact h

theorem start (m n : ℕ) : (start m n : Duals ℚ).Whole := by
  have none_known (k : ℕ) : ∀ (i : ℕ) (y : ℚ), (List.replicate k none).getD i none = some y →
      y ∈ integers := by
    intro i y hy
    rw [List.getD_eq_getElem?_getD, List.getElem?_replicate] at hy
    split_ifs at hy
    · simp at hy
    · simp at hy
  exact ⟨of_set (none_known m) integers.zero_mem 0, none_known n⟩

end Whole

end Duals

theorem Duals.Whole.getD {values : List (Option ℚ)}
    (h : ∀ i y, values.getD i none = some y → y ∈ integers) (i : ℕ) :
    (values.getD i none).getD 0 ∈ integers := by
  cases hvalue : values.getD i none with
  | none => exact integers.zero_mem
  | some y => exact h i y hvalue

theorem State.le_length_of_allDuals {F : Type} [Scalar F] {s : State F} {d : Duals F}
    (hd : s.allDuals = .ok d) : s.rowCount + s.columnCount ≤ s.plan.basicCells.length + 1 := by
  unfold allDuals at hd
  dsimp only at hd
  split_ifs at hd with hempty
  rw [Bool.and_eq_true, List.isEmpty_iff, List.isEmpty_iff] at hempty
  have hzero := Duals.unresolved_eq_zero hempty.1 hempty.2
  have hfound : Duals.Found s.plan.basicCells s.rowCount s.columnCount s.duals :=
    Duals.propagate_induction (fun d c hc h => h.resolve s.unitCost hc) _
      (Duals.Found.start s.plan.basicCells s.rowCount s.columnCount)
  have hle := List.countP_le_length (p := s.duals.knows) (l := s.plan.basicCells)
  rw [Duals.Found, hzero] at hfound
  omega

/-- If the basic cells determine all dual values, each but one was found through a cell of its
own. -/
theorem State.tied_of_allDuals {s : State ℚ} {d : Duals ℚ} (hd : s.allDuals = .ok d)
    (hrows : 0 < s.rowCount)
    (hinside : ∀ c ∈ s.plan.basicCells, c.row < s.rowCount ∧ c.column < s.columnCount) :
    d.unresolved = 0 ∧
      ∃ used, Duals.Tied s.unitCost s.plan.basicCells s.rowCount s.columnCount d used := by
  unfold allDuals at hd
  dsimp only at hd
  split_ifs at hd with hempty
  obtain rfl := Except.ok.inj hd
  rw [Bool.and_eq_true, List.isEmpty_iff, List.isEmpty_iff] at hempty
  refine ⟨Duals.unresolved_eq_zero hempty.1 hempty.2, ?_⟩
  -- the cells that values were found through are kept beside the values
  exact Duals.propagate_induction
    (P := fun d => ∃ used, Duals.Tied s.unitCost s.plan.basicCells s.rowCount s.columnCount d used)
    (fun d c hc h => Duals.Tied.resolve h hc (hinside c hc).1 (hinside c hc).2)
    (s.rowCount + s.columnCount) ⟨[], Duals.Tied.start s.unitCost s.plan.basicCells hrows _⟩

/-- If the basic cells determine all dual values and are fewer than the lines, the values are exact
for all of them. -/
theorem State.exact_of_allDuals {s : State ℚ} {d : Duals ℚ} (hd : s.allDuals = .ok d)
    (hinside : ∀ c ∈ s.plan.basicCells, c.row < s.rowCount ∧ c.column < s.columnCount)
    (hcells : s.plan.basicCells.length < s.rowCount + s.columnCount) :
    ∀ c ∈ s.plan.basicCells, d.Exact s.unitCost c := by
  intro c hc
  obtain ⟨hzero, used, hused⟩ := tied_of_allDuals hd (Nat.zero_lt_of_lt (hinside c hc).1) hinside
  exact hused.exact_of_mem hzero hcells hc

theorem State.whole_of_allDuals {s : State ℚ} {d : Duals ℚ} (hd : s.allDuals = .ok d)
    (hcost : ∀ c, s.unitCost c ∈ integers) : d.Whole := by
  unfold allDuals at hd
  dsimp only at hd
  split_ifs at hd
  obtain rfl := Except.ok.inj hd
  exact Duals.propagate_induction (fun d c _ h => h.resolve hcost c) _ (Duals.Whole.start _ _)

end Optima.Transport
