import Mathlib
import Optima.Proofs.Simplex.Standard

namespace Optima.Simplex

variable {p : LinearProgram ℚ} {x : String → ℚ} {y : ℕ → ℚ}

/-- A nonnegative solution of the first rows that has the values of a point in the columns of the
variables and zero in the artificial ones. -/
structure Extends (p : LinearProgram ℚ) (x : String → ℚ) (y : ℕ → ℚ) : Prop where
  nonneg : ∀ j < (firstTableau p).columnCount, 0 ≤ y j
  decision : ∀ j < p.variableNames.length, y j = x (p.variableNames.getD j "")
  artificial : ∀ j < (firstTableau p).columnCount, (firstState p).isArtificial j = true → y j = 0
  solves : (firstTableau p).Solves y

def pointOf (p : LinearProgram ℚ) (y : ℕ → ℚ) (name : String) : ℚ :=
  y (p.variableNames.idxOf name)

theorem eq_pointOf (hd : p.NamesDistinct) (y : ℕ → ℚ) {j : ℕ} (hj : j < p.variableNames.length) :
    y j = pointOf p y (p.variableNames.getD j "") := by
  rw [pointOf, List.getD_eq_getElem _ _ hj,
    (LinearProgram.nodup_variableNames hd.objective).idxOf_getElem]

theorem auxiliaries_sum (goal : Goal) (i : ℕ) (row : Row ℚ) (z : ℕ → ℚ) :
    ∑ l ∈ Finset.range (auxiliaries goal i row).length,
        ((auxiliaries goal i row).map (·.coefficient)).getD l 0 * z l =
      match row.relation with
      | .atMost => z 0
      | .atLeast => z 1 - z 0
      | .equal => z 0 := by
  cases hr : row.relation <;> simp [auxiliaries, hr, Finset.sum_range_succ]
  ring

theorem eval_eq_sum {ks : List ℚ} {names : List String} (h : ks.length = names.length)
    (hy : ∀ j < names.length, y j = x (names.getD j "")) :
    (⟨ks, names⟩ : LinearForm ℚ).eval x =
      ∑ j ∈ Finset.range names.length, ks.getD j 0 * y j := by
  rw [LinearForm.eval, sum_zipWith_eq_range (fun k name => k * x name) h rfl 0 ""]
  exact Finset.sum_congr rfl fun j hj => by rw [hy j (Finset.mem_range.mp hj)]

/-- A row of the first tableau: the left side of its constraint and the columns added for it. -/
theorem firstTableau_lhs {i : ℕ} (hi : i < (rowsOf p).length)
    (hy : ∀ j < p.variableNames.length, y j = x (p.variableNames.getD j "")) :
    (firstTableau p).lhs y i =
      (⟨(rowsOf p)[i].coefficients, p.variableNames⟩ : LinearForm ℚ).eval x +
        ∑ l ∈ Finset.range ((addedColumns p).getD i []).length,
          (((addedColumns p).getD i []).map (·.coefficient)).getD l 0 *
            y (p.variableNames.length + (chunkStart (addedColumns p) i + l)) := by
  rw [Tableau.lhs, columnCount_firstTableau, Finset.sum_range_add,
    eval_eq_sum (rowsOf_length_coefficients (List.getElem_mem hi)) hy, sum_flatten]
  congr 1
  · exact Finset.sum_congr rfl fun j hj => by
      rw [firstTableau_get_decision hi (Finset.mem_range.mp hj)]
  -- of the columns added for all rows only those for this one have entries in it
  · rw [Finset.sum_eq_single i]
    · apply Finset.sum_congr rfl
      intro l hl
      have hl := Finset.mem_range.mp hl
      have hcoefficient : (((addedColumns p).getD i []).map (·.coefficient)).getD l 0 =
          ((addedColumns p).getD i [])[l].coefficient := by
        rw [List.getD_eq_getElem?_getD, List.getElem?_map, List.getElem?_eq_getElem hl]
        rfl
      rw [firstTableau_get_added hi hl, if_pos rfl, hcoefficient]
    · intro k _ hk
      apply Finset.sum_eq_zero
      intro l hl
      rw [firstTableau_get_added hi (Finset.mem_range.mp hl), if_neg hk, zero_mul]
    · intro h
      exact absurd (Finset.mem_range.mpr (by rwa [addedColumns_length])) h

theorem isArtificial_decision {j : ℕ} (hj : j < p.variableNames.length) :
    (firstState p).isArtificial j = false := by
  rw [State.isArtificial, firstState_kinds, List.getD_append _ _ _ _ (by simpa using hj),
    List.getD_eq_getElem _ _ (by simpa using hj), List.getElem_map]
  rfl

theorem isArtificial_added {i l : ℕ} {a : Auxiliary ℚ}
    (ha : ((addedColumns p).getD i [])[l]? = some a) :
    (firstState p).isArtificial (p.variableNames.length + (chunkStart (addedColumns p) i + l)) =
      (a.kind == .artificial) := by
  obtain ⟨hl, rfl⟩ := List.getElem?_eq_some_iff.mp ha
  rw [State.isArtificial, firstState_kinds, List.getD_append_right _ _ _ _ (by simp),
    List.length_map, Nat.add_sub_cancel_left, List.getD_eq_getElem?_getD, List.getElem?_map,
    getElem?_flatten_chunk _ hl, ha]
  rfl

/-- What the columns added for a row have to be at a point: what is missing to the bound or exceeds
it, and zero for an artificial column. -/
def addedValues (names : List String) (x : String → ℚ) (row : Row ℚ) : List ℚ :=
  let side := (⟨row.coefficients, names⟩ : LinearForm ℚ).eval x
  match row.relation with
  | .atMost => [row.bound - side]
  | .atLeast => [side - row.bound, 0]
  | .equal => [0]

theorem addedValues_length (names : List String) (x : String → ℚ) (goal : Goal) (i : ℕ)
    (row : Row ℚ) : (addedValues names x row).length = (auxiliaries goal i row).length := by
  cases hr : row.relation <;> simp [addedValues, auxiliaries, hr]

theorem addedValues_spec {names : List String} {row : Row ℚ} (h : row.Holds names x) (goal : Goal)
    (i : ℕ) {l : ℕ} {a : Auxiliary ℚ} (ha : (auxiliaries goal i row)[l]? = some a) :
    0 ≤ (addedValues names x row).getD l 0 ∧
      (a.kind = .artificial → (addedValues names x row).getD l 0 = 0) := by
  rw [Row.Holds] at h
  cases hr : row.relation with
  | atMost =>
    rw [hr, Relation.Holds] at h
    cases l with
    | zero =>
      obtain rfl : _ = a := by simpa [auxiliaries, hr] using ha
      simpa [addedValues, hr] using h
    | succ l => simp [auxiliaries, hr] at ha
  | atLeast =>
    rw [hr, Relation.Holds] at h
    obtain _ | _ | l := l
    · obtain rfl : _ = a := by simpa [auxiliaries, hr] using ha
      simpa [addedValues, hr] using h
    · simp [addedValues, hr]
    · simp [auxiliaries, hr] at ha
  | equal =>
    cases l with
    | zero => simp [addedValues, hr]
    | succ l => simp [auxiliaries, hr] at ha

def extension (p : LinearProgram ℚ) (x : String → ℚ) (j : ℕ) : ℚ :=
  if j < p.variableNames.length then x (p.variableNames.getD j "")
  else ((rowsOf p).map (addedValues p.variableNames x)).flatten.getD (j - p.variableNames.length) 0

theorem extension_added {i l : ℕ} (hi : i < (rowsOf p).length)
    (hl : l < ((addedColumns p).getD i []).length) :
    extension p x (p.variableNames.length + (chunkStart (addedColumns p) i + l)) =
      (addedValues p.variableNames x (rowsOf p)[i]).getD l 0 := by
  have hchunk : ((rowsOf p).map (addedValues p.variableNames x)).getD i [] =
      addedValues p.variableNames x (rowsOf p)[i] := by simp [hi]
  -- values are laid out in chunks of the same lengths as the columns
  have hlengths : (addedColumns p).map List.length =
      ((rowsOf p).map (addedValues p.variableNames x)).map List.length := by
    apply List.ext_getElem (by simp [addedColumns_length])
    intro k hk _
    have hk : k < (rowsOf p).length := by simpa [addedColumns_length] using hk
    simp [addedColumns, addedValues_length _ _ p.goal k]
  have hl' : l < (((rowsOf p).map (addedValues p.variableNames x)).getD i []).length := by
    rwa [hchunk, addedValues_length _ _ p.goal i, ← addedColumns_getD hi]
  rw [extension, if_neg (by omega), Nat.add_sub_cancel_left, chunkStart_congr hlengths,
    List.getD_eq_getElem?_getD, getElem?_flatten_chunk _ hl', hchunk, ← List.getD_eq_getElem?_getD]

/-- Every column is that of a variable or one of those added for a row. -/
theorem column_cases {j : ℕ} (hj : j < (firstTableau p).columnCount) :
    j < p.variableNames.length ∨ ∃ i l a, i < (rowsOf p).length ∧
      ((addedColumns p).getD i [])[l]? = some a ∧
      j = p.variableNames.length + (chunkStart (addedColumns p) i + l) := by
  by_cases hd : j < p.variableNames.length
  · exact .inl hd
  · rw [columnCount_firstTableau] at hj
    obtain ⟨i, l, hi, hl, hil⟩ := exists_chunk (addedColumns p)
      (k := j - p.variableNames.length) (by omega)
    rw [addedColumns_length] at hi
    exact .inr ⟨i, l, _, hi, List.getElem?_eq_getElem hl, by omega⟩

theorem extends_extension (h : ∀ row ∈ rowsOf p, row.Holds p.variableNames x)
    (hx : ∀ name ∈ p.variableNames, 0 ≤ x name) : Extends p x (extension p x) := by
  have hdecision (j : ℕ) (hj : j < p.variableNames.length) :
      extension p x j = x (p.variableNames.getD j "") := if_pos hj
  refine ⟨?_, hdecision, ?_, ?_⟩
  · intro j hj
    rcases column_cases hj with hj | ⟨i, l, a, hi, ha, rfl⟩
    · rw [hdecision j hj, List.getD_eq_getElem _ _ hj]
      exact hx _ (List.getElem_mem hj)
    · rw [extension_added hi (List.getElem?_eq_some_iff.mp ha).1]
      rw [addedColumns_getD hi] at ha
      exact (addedValues_spec (h _ (List.getElem_mem hi)) _ _ ha).1
  · intro j hj hart
    rcases column_cases hj with hj | ⟨i, l, a, hi, ha, rfl⟩
    · rw [isArtificial_decision hj] at hart
      exact absurd hart Bool.false_ne_true
    · rw [isArtificial_added ha, beq_iff_eq] at hart
      rw [extension_added hi (List.getElem?_eq_some_iff.mp ha).1]
      rw [addedColumns_getD hi] at ha
      exact (addedValues_spec (h _ (List.getElem_mem hi)) _ _ ha).2 hart
  · intro i hi
    rw [rowCount_firstTableau] at hi
    rw [firstTableau_lhs hi hdecision, firstTableau_rhs hi]
    have hsum : ∑ l ∈ Finset.range ((addedColumns p).getD i []).length,
        (((addedColumns p).getD i []).map (·.coefficient)).getD l 0 *
          extension p x (p.variableNames.length + (chunkStart (addedColumns p) i + l)) =
        ∑ l ∈ Finset.range ((addedColumns p).getD i []).length,
          (((addedColumns p).getD i []).map (·.coefficient)).getD l 0 *
            (addedValues p.variableNames x (rowsOf p)[i]).getD l 0 :=
      Finset.sum_congr rfl fun l hl => by rw [extension_added hi (Finset.mem_range.mp hl)]
    have hrow := h _ (List.getElem_mem hi)
    rw [hsum, addedColumns_getD hi, auxiliaries_sum]
    rw [Row.Holds] at hrow
    -- the added values make up for what the row is short of or exceeds
    cases hr : (rowsOf p)[i].relation with
    | atMost => simp [addedValues, hr]
    | atLeast => simp [addedValues, hr]
    | equal =>
      rw [hr, Relation.Holds] at hrow
      simpa [addedValues, hr] using hrow

theorem Extends.holds (h : Extends p x y) : ∀ row ∈ rowsOf p, row.Holds p.variableNames x := by
  intro row hrow
  obtain ⟨i, hi, rfl⟩ := List.getElem_of_mem hrow
  have hsolve := h.solves i (by rwa [rowCount_firstTableau])
  have hcolumn (l : ℕ) (hl : l < (auxiliaries p.goal i (rowsOf p)[i]).length) :
      0 ≤ y (p.variableNames.length + (chunkStart (addedColumns p) i + l)) ∧
        ((auxiliaries p.goal i (rowsOf p)[i])[l].kind = .artificial →
          y (p.variableNames.length + (chunkStart (addedColumns p) i + l)) = 0) := by
    have ha : ((addedColumns p).getD i [])[l]? = some (auxiliaries p.goal i (rowsOf p)[i])[l] := by
      rw [addedColumns_getD hi, List.getElem?_eq_getElem hl]
    have hlt : p.variableNames.length + (chunkStart (addedColumns p) i + l) <
        (firstTableau p).columnCount := by
      rw [columnCount_firstTableau]
      exact Nat.add_lt_add_left (chunkStart_add_lt _ (List.getElem?_eq_some_iff.mp ha).1) _
    refine ⟨h.nonneg _ hlt, fun hkind => h.artificial _ hlt ?_⟩
    rw [isArtificial_added ha, hkind]
    rfl
  rw [firstTableau_lhs hi h.decision, firstTableau_rhs hi, addedColumns_getD hi,
    auxiliaries_sum] at hsolve
  rw [Row.Holds]
  -- slack and surplus are not negative, and artificial columns are zero
  cases hr : (rowsOf p)[i].relation with
  | atMost =>
    have h0 := (hcolumn 0 (by simp [auxiliaries, hr])).1
    simp only [hr, add_zero] at hsolve h0
    rw [Relation.Holds]
    linarith
  | atLeast =>
    have h0 := (hcolumn 0 (by simp [auxiliaries, hr])).1
    have h1 := (hcolumn 1 (by simp [auxiliaries, hr])).2 (by simp [auxiliaries, hr])
    simp only [hr, add_zero] at hsolve h0
    rw [Relation.Holds]
    linarith
  | equal =>
    have h0 := (hcolumn 0 (by simp [auxiliaries, hr])).2 (by simp [auxiliaries, hr])
    simp only [hr, add_zero] at hsolve h0
    rw [Relation.Holds]
    linarith

theorem Extends.nonneg_point {x : String → ℚ} {y : ℕ → ℚ} (h : Extends p x y) :
    ∀ name ∈ p.variableNames, 0 ≤ x name := by
  intro name hname
  obtain ⟨j, hj, rfl⟩ := List.getElem_of_mem hname
  have hlt : j < (firstTableau p).columnCount := by
    rw [columnCount_firstTableau]
    omega
  have hy := h.nonneg j hlt
  rwa [h.decision j hj, List.getD_eq_getElem _ _ hj] at hy

/-- The points that meet all constraints are those that extend to a solution of the rows. -/
theorem feasible_iff_extends (hp : p.fault? = none) (hd : p.NamesDistinct) (x : String → ℚ) :
    p.Feasible x ↔ ∃ y, Extends p x y := by
  rw [feasible_iff_rows hp hd]
  constructor
  · intro h
    exact ⟨_, extends_extension h.2 h.1⟩
  · rintro ⟨y, hy⟩
    exact ⟨hy.nonneg_point, hy.holds⟩

end Optima.Simplex
