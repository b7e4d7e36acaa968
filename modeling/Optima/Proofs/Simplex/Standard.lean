import Mathlib
import Optima.Proofs.Chunks
import Optima.Proofs.Linear.Reading
import Optima.Proofs.Simplex.Canonical
import Optima.Simplex.Initial

namespace Optima

theorem LinearForm.eval_map_neg (ks : List ℚ) (ns : List String) (x : String → ℚ) :
    eval ⟨ks.map (-·), ns⟩ x = -eval ⟨ks, ns⟩ x := by
  induction ks generalizing ns with
  | nil => simp [eval]
  | cons k ks ih =>
    cases ns with
    | nil => simp [eval]
    | cons n ns =>
      rw [List.map_cons, eval_cons, eval_cons, ih]
      ring

namespace Simplex

def Row.Holds (names : List String) (r : Row ℚ) (x : String → ℚ) : Prop :=
  r.relation.Holds ((⟨r.coefficients, names⟩ : LinearForm ℚ).eval x) r.bound

namespace Row

theorem ofConstraint_length {F : Type} [Scalar F] (names : List String) (c : Constraint F) :
    (ofConstraint names c).coefficients.length = names.length := by
  simp only [ofConstraint]
  split_ifs <;> simp

theorem ofConstraint_bound_nonneg (names : List String) (c : Constraint ℚ) :
    0 ≤ (ofConstraint names c).bound := by
  simp only [ofConstraint]
  split_ifs with h
  · exact neg_nonneg.mpr h.le
  · exact not_lt.mp h

theorem holds_ofConstraint (names : List String) (c : Constraint ℚ) (x : String → ℚ) :
    (ofConstraint names c).Holds names x ↔ (c.readBy names).Holds x := by
  simp only [Holds, ofConstraint]
  split_ifs
  · rw [LinearForm.eval_map_neg, Relation.flip_holds]
    exact Iff.rfl
  · exact Iff.rfl

end Row

def addedColumns {F : Type} [Scalar F] (p : LinearProgram F) : List (List (Auxiliary F)) :=
  (rowsOf p).zipIdx.map fun (row, i) => auxiliaries p.goal i row

variable {p : LinearProgram ℚ}

/-- The rows say what the constraints say as they are read. -/
theorem rows_hold_iff {x : String → ℚ} (hx : ∀ name ∈ p.variableNames, 0 ≤ x name) :
    (∀ row ∈ rowsOf p, row.Holds p.variableNames x) ↔ ∀ c ∈ p.byName.constraints, c.Holds x := by
  rw [rowsOf, LinearProgram.byName, List.forall_mem_map, List.forall_mem_map]
  simp only [Row.holds_ofConstraint, List.mem_filter]
  constructor
  · intro h c hc
    cases hsign : c.isSignRestriction with
    | true => exact Constraint.holds_readBy_of_isSignRestriction hsign hx
    | false => exact h c ⟨hc, by simp [hsign]⟩
  · intro h c hc
    exact h c hc.1

/-- Where the names are distinct, the rows say the same as the constraints. -/
theorem feasible_iff_rows (hp : p.fault? = none) (hd : p.NamesDistinct) (x : String → ℚ) :
    p.Feasible x ↔ (∀ name ∈ p.variableNames, 0 ≤ x name) ∧
      ∀ row ∈ rowsOf p, row.Holds p.variableNames x := by
  have hagrees := (LinearProgram.readInFull_of_namesDistinct hp hd).agrees x
  constructor
  · intro h
    exact ⟨h.nonneg, (rows_hold_iff h.nonneg).mpr ((hagrees h.nonneg).1.mp h.holds)⟩
  · intro h
    exact ⟨h.1, (hagrees h.1).1.mpr ((rows_hold_iff h.1).mp h.2)⟩

section FirstTableau

variable {F : Type} [Scalar F] {p : LinearProgram F}

theorem rowsOf_length_coefficients {row : Row F} (h : row ∈ rowsOf p) :
    row.coefficients.length = p.variableNames.length := by
  obtain ⟨c, -, rfl⟩ := List.mem_map.mp h
  exact Row.ofConstraint_length _ _

theorem rowsOf_bound_nonneg {p : LinearProgram ℚ} {row : Row ℚ} (h : row ∈ rowsOf p) :
    0 ≤ row.bound := by
  obtain ⟨c, -, rfl⟩ := List.mem_map.mp h
  exact Row.ofConstraint_bound_nonneg _ _

theorem addedColumns_length (p : LinearProgram F) :
    (addedColumns p).length = (rowsOf p).length := by
  simp [addedColumns]

theorem addedColumns_getD {i : ℕ} (hi : i < (rowsOf p).length) :
    (addedColumns p).getD i [] = auxiliaries p.goal i (rowsOf p)[i] := by
  rw [List.getD_eq_getElem _ _ (by rwa [addedColumns_length])]
  simp [addedColumns]

theorem auxiliaries_ne_nil (goal : Goal) (i : ℕ) (row : Row F) : auxiliaries goal i row ≠ [] := by
  unfold auxiliaries
  cases row.relation <;> simp

theorem spec_of_mem_auxiliaries {goal : Goal} {i : ℕ} {row : Row F} {a : Auxiliary F}
    (h : a ∈ auxiliaries goal i row) : a.kind ≠ .decision ∧
      (a.name = "s" ++ toString (i + 1) ∨ a.name = "a" ++ toString (i + 1)) ∧
      (a.coefficient = 1 ∨ a.coefficient = -1) := by
  unfold auxiliaries at h
  cases hr : row.relation with
  | atMost =>
    obtain rfl := by simpa [hr] using h
    exact ⟨nofun, .inl rfl, .inl rfl⟩
  | atLeast =>
    obtain rfl | rfl := by simpa [hr] using h
    · exact ⟨nofun, .inl rfl, .inr rfl⟩
    · exact ⟨nofun, .inr rfl, .inl rfl⟩
  | equal =>
    obtain rfl := by simpa [hr] using h
    exact ⟨nofun, .inr rfl, .inl rfl⟩

/-- The entries of a row in the columns added for one row, given with the number of that row. -/
def blockEntries (i : ℕ) (block : List (Auxiliary F) × ℕ) : List F :=
  block.1.map fun a => if block.2 = i then a.coefficient else 0

theorem auxiliaryEntries_eq_flatMap (added : List (List (Auxiliary F))) (i : ℕ) :
    auxiliaryEntries added i = added.zipIdx.flatMap (blockEntries i) := rfl

theorem auxiliaryEntries_length (added : List (List (Auxiliary F))) (i : ℕ) :
    (auxiliaryEntries added i).length = added.flatten.length := by
  have h (k : ℕ) : ((added.zipIdx k).flatMap (blockEntries i)).length = added.flatten.length := by
    induction added generalizing k with
    | nil => rfl
    | cons columns added ih => simp [List.zipIdx_cons, blockEntries, ih (k + 1)]
  exact h 0

theorem auxiliaryEntries_getD (added : List (List (Auxiliary F))) (i : ℕ) {k l : ℕ}
    (hl : l < (added.getD k []).length) :
    (auxiliaryEntries added i).getD (chunkStart added k + l) 0 =
      if k = i then ((added.getD k [])[l]).coefficient else 0 := by
  have hchunks : auxiliaryEntries added i = (added.zipIdx.map (blockEntries i)).flatten :=
    List.flatMap_def
  have hlength : added.map List.length =
      (added.zipIdx.map (blockEntries i)).map List.length := by
    apply List.ext_getElem (by simp)
    intro j _ _
    simp [blockEntries]
  have hk : k < added.length := by
    by_contra hk
    rw [List.getD_eq_default _ _ (not_lt.mp hk)] at hl
    simp at hl
  have hget : (added.zipIdx.map (blockEntries i)).getD k [] =
      (added.getD k []).map fun a => if k = i then a.coefficient else 0 := by
    simp [blockEntries, hk]
  rw [hchunks, chunkStart_congr hlength, List.getD_eq_getElem?_getD,
    getElem?_flatten_chunk _ (by rwa [hget, List.length_map]), hget, List.getElem?_map,
    List.getElem?_eq_getElem hl]
  rfl

theorem rowCount_firstTableau (p : LinearProgram F) :
    (firstTableau p).rowCount = (rowsOf p).length := by
  change ((List.range _).map _).length = _
  rw [List.length_map, List.length_range]

theorem columnCount_firstTableau (p : LinearProgram F) : (firstTableau p).columnCount =
    p.variableNames.length + (addedColumns p).flatten.length := by
  change (p.variableNames ++ (addedColumns p).flatten.map (·.name)).length = _
  rw [List.length_append, List.length_map]

theorem length_rows_firstTableau (p : LinearProgram F) :
    (firstTableau p).body.rows.length = (rowsOf p).length := by
  change ((rowsOf p).zipIdx.map _).length = _
  rw [List.length_map, List.length_zipIdx]

theorem length_rhs_firstTableau (p : LinearProgram F) :
    (firstTableau p).rhs.length = (rowsOf p).length := List.length_map _

theorem firstTableau_row {i : ℕ} (hi : i < (rowsOf p).length) :
    (firstTableau p).body.row i =
      (rowsOf p)[i].coefficients ++ auxiliaryEntries (addedColumns p) i := by
  change ((rowsOf p).zipIdx.map fun (row, i) =>
    row.coefficients ++ auxiliaryEntries (addedColumns p) i).getD i [] = _
  simp [hi]

theorem firstTableau_get_decision {i j : ℕ} (hi : i < (rowsOf p).length)
    (hj : j < p.variableNames.length) :
    (firstTableau p).body.get i j = (rowsOf p)[i].coefficients.getD j 0 := by
  rw [Matrix.get, firstTableau_row hi, List.getD_append]
  rwa [rowsOf_length_coefficients (List.getElem_mem hi)]

theorem firstTableau_get_added {i k l : ℕ} (hi : i < (rowsOf p).length)
    (hl : l < ((addedColumns p).getD k []).length) :
    (firstTableau p).body.get i (p.variableNames.length + (chunkStart (addedColumns p) k + l)) =
      if k = i then (((addedColumns p).getD k [])[l]).coefficient else 0 := by
  have hd : (rowsOf p)[i].coefficients.length = p.variableNames.length :=
    rowsOf_length_coefficients (List.getElem_mem hi)
  rw [Matrix.get, firstTableau_row hi, List.getD_append_right _ _ _ _ (by omega), hd,
    Nat.add_sub_cancel_left, auxiliaryEntries_getD _ _ hl]

theorem firstTableau_rhs {i : ℕ} (hi : i < (rowsOf p).length) :
    (firstTableau p).rhs.getD i 0 = (rowsOf p)[i].bound := by
  change ((rowsOf p).map (·.bound)).getD i 0 = _
  simp [hi]

theorem firstTableau_basis {i : ℕ} (hi : i < (rowsOf p).length) :
    (firstTableau p).basis.getD i 0 = p.variableNames.length +
      (chunkStart (addedColumns p) i + (((addedColumns p).getD i []).length - 1)) := by
  change ((List.range (rowsOf p).length).map
    (firstBasic p.variableNames.length (addedColumns p))).getD i 0 = _
  have hpos : 0 < ((addedColumns p).getD i []).length := by
    rw [addedColumns_getD hi]
    exact List.length_pos_iff.mpr (auxiliaries_ne_nil _ _ _)
  rw [List.getD_eq_getElem _ _ (by simpa using hi), List.getElem_map, List.getElem_range]
  rw [firstBasic, List.length_flatten]
  change _ + chunkStart (addedColumns p) (i + 1) - 1 = _
  rw [chunkStart_succ]
  omega

theorem auxiliaries_last_coefficient (goal : Goal) (i : ℕ) (row : Row F)
    (h : (auxiliaries goal i row).length - 1 < (auxiliaries goal i row).length) :
    ((auxiliaries goal i row)[(auxiliaries goal i row).length - 1]).coefficient = 1 := by
  cases hr : row.relation <;> simp [auxiliaries, hr]

theorem firstState_kinds [Numeral F] (p : LinearProgram F) : (firstState p).kinds =
    p.variableNames.map (fun _ => .decision) ++ (addedColumns p).flatten.map (·.kind) := by
  change p.variableNames.map _ ++ ((rowsOf p).zipIdx.flatMap _).map _ = _
  rw [List.flatMap_def]
  rfl

theorem firstTableau_canonical (p : LinearProgram ℚ) : (firstTableau p).Canonical := by
  -- the last column added for a row is basic there
  have hlast (i : ℕ) (hi : i < (rowsOf p).length) :
      ((addedColumns p).getD i []).length - 1 < ((addedColumns p).getD i []).length := by
    have := List.length_pos_iff.mpr (auxiliaries_ne_nil p.goal i (rowsOf p)[i])
    rw [addedColumns_getD hi]
    omega
  have hshaped : (firstTableau p).Shaped := by
    refine ⟨?_, ?_, ?_, ?_, ?_, ?_⟩
    · rw [rowCount_firstTableau, length_rows_firstTableau]
    · intro r hr
      obtain ⟨⟨row, i⟩, hmem, rfl⟩ := List.mem_map.mp hr
      have hrow := List.mem_of_getElem? (List.mk_mem_zipIdx_iff_getElem?.mp hmem)
      rw [columnCount_firstTableau, List.length_append, rowsOf_length_coefficients hrow]
      exact congrArg _ (auxiliaryEntries_length (addedColumns p) i)
    · change (p.variableNames.map _ ++ (addedColumns p).flatten.map _).length = _
      rw [columnCount_firstTableau, List.length_append, List.length_map, List.length_map]
    · rw [rowCount_firstTableau, length_rhs_firstTableau]
    · change (p.variableNames.map _ ++ (addedColumns p).flatten.map _).length = _
      rw [columnCount_firstTableau, List.length_append, List.length_map, List.length_map]
    · exact List.length_map _
  refine ⟨hshaped, ?_, ?_, ?_, rfl⟩
  · intro i hi
    rw [rowCount_firstTableau] at hi
    rw [firstTableau_basis hi, columnCount_firstTableau]
    exact Nat.add_lt_add_left (chunkStart_add_lt _ (hlast i hi)) _
  · intro i hi k hk
    rw [rowCount_firstTableau] at hi hk
    rw [firstTableau_basis hk, firstTableau_get_added hi (hlast k hk)]
    simp only [addedColumns_getD hk, auxiliaries_last_coefficient]
    exact if_congr eq_comm rfl rfl
  · intro i hi
    have hi : i < (firstTableau p).basis.length := hi
    change ((firstTableau p).basis.map fun j => (firstTableau p).cost.getD j 0).getD i 0 = _
    rw [List.getD_eq_getElem _ _ (by simpa using hi), List.getElem_map,
      List.getD_eq_getElem _ _ hi]

end FirstTableau

end Simplex

end Optima
