import Optima.Proofs.Runs
import Optima.Proofs.Simplex.Formulation

namespace Optima

namespace Linear

variable {F : Type} [Scalar F] {ts found : List (String × F)}

theorem nodup_foldl_addTerm (ts : List (String × F)) (h : (found.map (·.1)).Nodup) :
    ((ts.foldl (fun found t => addTerm found t.1 t.2) found).map (·.1)).Nodup := by
  induction ts generalizing found with
  | nil => exact h
  | cons t ts ih =>
    apply ih
    rw [map_addTerm]
    split_ifs with hmem
    · exact h
    · have hnew : t.1 ∉ found.map (·.1) := by simpa using hmem
      exact List.nodup_append.mpr ⟨h, List.nodup_singleton _, by grind⟩

theorem foldl_addTerm_of_nodup (h : ((found ++ ts).map (·.1)).Nodup) :
    ts.foldl (fun found t => addTerm found t.1 t.2) found = found ++ ts := by
  induction ts generalizing found with
  | nil => exact (List.append_nil found).symm
  | cons t ts ih =>
    have hnew : ¬found.any (·.1 == t.1) = true := by
      rw [any_name_eq_contains, List.contains_iff_mem]
      rw [List.map_append, List.map_cons] at h
      exact fun hmem => (List.nodup_append.mp h).2.2 _ hmem _ List.mem_cons_self rfl
    have hnext : addTerm found t.1 t.2 = found ++ [t] := if_neg hnew
    rw [List.foldl_cons, hnext, ih (by rwa [List.append_assoc]), List.append_assoc]
    rfl

end Linear

namespace Simplex

open Linear Numeral

section Columns

variable {F : Type} [Scalar F]

def Tableau.rowTerms (t : Tableau F (BigM F)) (i : ℕ) : List (String × F) :=
  ((List.range t.columnCount).filter fun j => !(t.body.get i j == 0)).map fun j =>
    (t.names.getD j "", t.body.get i j)

/-- A variable of the program and a column added to it have one name, and an entry each in the
row. -/
def State.NamesClash (s : State F) (i : ℕ) : Prop :=
  ∃ j < s.columnCount, ∃ k < s.columnCount,
    s.kinds.getD j .decision = .decision ∧ s.kinds.getD k .decision ≠ .decision ∧
    s.columnName j = s.columnName k ∧ (s.body.get i j == 0) = false ∧ (s.body.get i k == 0) = false

instance (s : State F) (i : ℕ) : Decidable (s.NamesClash i) :=
  inferInstanceAs (Decidable (∃ j < s.columnCount, ∃ k < s.columnCount, _))

def written (names : List String) (row : List F) : List (F × String) :=
  (row.zip names).filter fun c => !(c.1 == 0)

theorem written_append {names more : List String} {row rest : List F}
    (h : row.length = names.length) :
    written (names ++ more) (row ++ rest) = written names row ++ written more rest := by
  rw [written, List.zip_append h, List.filter_append, written, written]

theorem written_eq_map {names : List String} {row : List F} (h : row.length = names.length) :
    written names row =
      ((List.range names.length).map fun j => (row.getD j 0, names.getD j "")).filter
        fun c => !(c.1 == 0) := by
  refine congrArg (List.filter _) (List.ext_getElem (by simp [h]) fun j hj _ => ?_)
  have hj : j < row.length ∧ j < names.length := by simpa using hj
  rw [List.getElem_zip, List.getElem_map, List.getElem_range, List.getD_eq_getElem _ _ hj.1,
    List.getD_eq_getElem _ _ hj.2]

theorem mem_written {names : List String} {row : List F} (h : row.length = names.length) {x : F}
    {n : String} : (x, n) ∈ written names row ↔
      ∃ j < names.length, row.getD j 0 = x ∧ names.getD j "" = n ∧ (x == 0) = false := by
  rw [written_eq_map h, List.mem_filter, List.mem_map]
  simp only [List.mem_range, Prod.mk.injEq, Bool.not_eq_true']
  constructor
  · rintro ⟨⟨j, hj, hx, hn⟩, h0⟩
    exact ⟨j, hj, hx, hn, h0⟩
  · rintro ⟨j, hj, hx, hn, h0⟩
    exact ⟨⟨j, hj, hx, hn⟩, h0⟩

theorem map_swap_written {t : Tableau F (BigM F)} {i : ℕ}
    (h : (t.body.row i).length = t.names.length) :
    (written t.names (t.body.row i)).map Prod.swap = t.rowTerms i := by
  rw [written_eq_map h, List.filter_map, List.map_map]
  rfl

/-- The columns added for one row have their entries in it, and none in the others. -/
theorem written_blockEntries {columns : List (Auxiliary F)}
    (h : ∀ a ∈ columns, (a.coefficient == 0) = false) (h0 : ((0 : F) == 0) = true) (i k : ℕ) :
    written (columns.map (·.name)) (blockEntries i (columns, k)) =
      if k = i then columns.map fun a => (a.coefficient, a.name) else [] := by
  rw [written, blockEntries, List.zip_map', List.filter_map]
  split_ifs with hk
  · refine congrArg (List.map _) (List.filter_eq_self.mpr fun a ha => ?_)
    simp [h a ha]
  · rw [List.map_eq_nil_iff, List.filter_eq_nil_iff]
    simp [h0]

theorem written_auxiliaryEntries {added : List (List (Auxiliary F))}
    (h : ∀ columns ∈ added, ∀ a ∈ columns, (a.coefficient == 0) = false)
    (h0 : ((0 : F) == 0) = true) (i : ℕ) :
    written (added.flatten.map (·.name)) (auxiliaryEntries added i) =
      (added.getD i []).map fun a => (a.coefficient, a.name) := by
  -- from the number of the first block on, for the induction on the blocks
  have hall (start : ℕ) : written (added.flatten.map (·.name))
      ((added.zipIdx start).flatMap (blockEntries i)) =
      if start ≤ i then (added.getD (i - start) []).map fun a => (a.coefficient, a.name)
      else [] := by
    induction added generalizing start with
    | nil => simp [written]
    | cons columns added ih =>
      obtain ⟨hcolumns, hadded⟩ := List.forall_mem_cons.mp h
      rw [List.zipIdx_cons, List.flatMap_cons, List.flatten_cons, List.map_append,
        written_append (by simp [blockEntries]), written_blockEntries hcolumns h0, ih hadded]
      rcases lt_trichotomy start i with hlt | rfl | hlt
      · rw [if_neg hlt.ne, if_pos hlt.le, if_pos (Nat.succ_le_of_lt hlt), List.nil_append,
          show i - start = i - (start + 1) + 1 by omega, List.getD_cons_succ]
      · simp
      · rw [if_neg hlt.ne', if_neg (by omega), if_neg (by omega)]
        rfl
  rw [auxiliaryEntries_eq_flatMap, hall 0]
  exact if_pos (Nat.zero_le i)

end Columns

section Added

variable {F : Type} [Scalar F] {goal : Goal} {i : ℕ} {row : Row F} {a : Auxiliary F}

theorem isName_auxiliaries (h : a ∈ auxiliaries goal i row) : IsName a.name.toList := by
  have hname {c : Char} (hc : c.isAlpha = true) : IsName (c :: (toString (i + 1)).toList) := by
    refine ⟨⟨c, rfl, hc⟩, List.forall_mem_cons.mpr ⟨isNameChar_of_isAlpha hc, fun d hd => ?_⟩⟩
    have hdigit := isDigit_iff.mp (Decimal.isDigit_of_mem_toString hd)
    exact isNameChar_iff.mpr (.inl hdigit)
  obtain ⟨-, hs | ha, -⟩ := spec_of_mem_auxiliaries h
  · rw [hs, String.toList_append]
    exact hname (c := 's') rfl
  · rw [ha, String.toList_append]
    exact hname (c := 'a') rfl

theorem nodup_auxiliaries (goal : Goal) (i : ℕ) (row : Row F) :
    ((auxiliaries goal i row).map (·.name)).Nodup := by
  have hne : s!"s{i + 1}" ≠ s!"a{i + 1}" := by
    intro heq
    have heq := congrArg String.toList heq
    simp only [String.toList_append, List.append_cancel_right_eq] at heq
    exact absurd heq (by decide)
  unfold auxiliaries
  cases row.relation with
  | atMost => exact List.nodup_singleton _
  | atLeast => exact List.nodup_cons.mpr ⟨by simpa using hne, List.nodup_singleton _⟩
  | equal => exact List.nodup_singleton _

theorem isFinite_auxiliaries {row : Row Float} {a : Auxiliary Float}
    (h : a ∈ auxiliaries goal i row) :
    Scalar.isFinite a.coefficient = true ∧ (a.coefficient == 0) = false := by
  obtain ⟨-, -, h1 | h1⟩ := spec_of_mem_auxiliaries h
  · rw [h1]
    decide +kernel
  · rw [h1]
    decide +kernel

end Added

section FirstRows

variable {p : LinearProgram Float} {i : ℕ}

theorem written_added (hi : i < (rowsOf p).length) :
    written ((addedColumns p).flatten.map (·.name)) (auxiliaryEntries (addedColumns p) i) =
      (auxiliaries p.goal i (rowsOf p)[i]).map fun a => (a.coefficient, a.name) := by
  have hadded : ∀ columns ∈ addedColumns p, ∀ a ∈ columns, (a.coefficient == 0) = false := by
    intro columns hcolumns a ha
    obtain ⟨⟨row, k⟩, -, rfl⟩ := List.mem_map.mp hcolumns
    exact (isFinite_auxiliaries ha).2
  have hzero : ((0 : Float) == 0) = true := by decide +kernel
  rw [written_auxiliaryEntries hadded hzero, addedColumns_getD hi]

/-- What is written of a row: the variables with an entry, then the columns added for the row. -/
theorem written_firstTableau (hi : i < (rowsOf p).length) :
    written (firstTableau p).names ((firstTableau p).body.row i) =
      written p.variableNames (rowsOf p)[i].coefficients ++
        (auxiliaries p.goal i (rowsOf p)[i]).map fun a => (a.coefficient, a.name) := by
  rw [firstTableau_row hi, ← written_added hi]
  exact written_append (rowsOf_length_coefficients (List.getElem_mem hi))

theorem isFinite_rowsOf (hp : p.fault? = none) {row : Row Float} (hrow : row ∈ rowsOf p) :
    Scalar.isFinite row.bound = true ∧
      ∀ x ∈ row.coefficients, Scalar.isFinite x = true := by
  have hvalues := LinearProgram.isFinite_of_fault?_eq_none hp
  obtain ⟨c, hc, rfl⟩ := List.mem_map.mp hrow
  have hc := (List.mem_filter.mp hc).1
  have hform : ∀ x ∈ c.coefficients ++ [c.bound], Scalar.isFinite x = true := fun x hx =>
    hvalues x (List.mem_append_right _ (List.mem_flatMap.mpr ⟨c, hc, hx⟩))
  obtain ⟨hcoefficients, hbound⟩ := List.forall_mem_append.mp hform
  have hbound := hbound c.bound (List.mem_singleton_self _)
  have hread (name : String) : Scalar.isFinite (c.coefficient name) = true :=
    LinearForm.coefficient_of_forall_mem hcoefficients (by decide +kernel) name
  unfold Row.ofConstraint
  dsimp only
  split_ifs
  · refine ⟨Scalar.isFinite_neg hbound, fun x hx => ?_⟩
    obtain ⟨y, hy, rfl⟩ := List.mem_map.mp hx
    obtain ⟨name, -, rfl⟩ := List.mem_map.mp hy
    exact Scalar.isFinite_neg (hread name)
  · refine ⟨hbound, fun x hx => ?_⟩
    obtain ⟨name, -, rfl⟩ := List.mem_map.mp hx
    exact hread name

theorem kinds_eq_decision_iff {j : ℕ} (hj : j < (firstTableau p).columnCount) :
    (firstState p).kinds.getD j .decision = .decision ↔ j < p.variableNames.length := by
  rw [firstState_kinds]
  by_cases hlt : j < p.variableNames.length
  · rw [List.getD_append _ _ _ _ (by simpa using hlt)]
    exact iff_of_true (by simp [hlt]) hlt
  · rw [columnCount_firstTableau] at hj
    have hl : j - p.variableNames.length < (addedColumns p).flatten.length := by omega
    rw [List.getD_append_right _ _ _ _ (by simpa using not_lt.mp hlt), List.length_map,
      List.getD_eq_getElem _ _ (by rwa [List.length_map]), List.getElem_map]
    refine iff_of_false ?_ hlt
    obtain ⟨columns, hcolumns, ha⟩ := List.mem_flatten.mp (List.getElem_mem hl)
    obtain ⟨⟨row, k⟩, -, rfl⟩ := List.mem_map.mp hcolumns
    exact (spec_of_mem_auxiliaries ha).1

theorem mem_names_variables (hi : i < (rowsOf p).length) {n : String} :
    n ∈ (written p.variableNames (rowsOf p)[i].coefficients).map (·.2) ↔
      ∃ j < p.variableNames.length,
        (firstState p).columnName j = n ∧ ((firstState p).body.get i j == 0) = false := by
  have hcolumn {j : ℕ} (hj : j < p.variableNames.length) :
      (rowsOf p)[i].coefficients.getD j 0 = (firstState p).body.get i j ∧
        p.variableNames.getD j "" = (firstState p).columnName j := by
    refine ⟨(firstTableau_get_decision hi hj).symm, ?_⟩
    change _ = (p.variableNames ++ (addedColumns p).flatten.map (·.name)).getD j ""
    rw [List.getD_append _ _ _ _ hj]
  have hlength := rowsOf_length_coefficients (List.getElem_mem hi)
  rw [List.mem_map]
  constructor
  · rintro ⟨⟨x, n⟩, hx, rfl⟩
    obtain ⟨j, hj, rfl, hname, h0⟩ := (mem_written hlength).mp hx
    rw [(hcolumn hj).1] at h0
    exact ⟨j, hj, (hcolumn hj).2.symm.trans hname, h0⟩
  · rintro ⟨j, hj, rfl, h0⟩
    exact ⟨(_, _), (mem_written hlength).mpr ⟨j, hj, (hcolumn hj).1, (hcolumn hj).2, h0⟩, rfl⟩

theorem mem_names_auxiliaries (hi : i < (rowsOf p).length) {n : String} :
    n ∈ (auxiliaries p.goal i (rowsOf p)[i]).map (·.name) ↔
      ∃ l < (addedColumns p).flatten.length,
        (firstState p).columnName (p.variableNames.length + l) = n ∧
        ((firstState p).body.get i (p.variableNames.length + l) == 0) = false := by
  have hcolumn (l : ℕ) : (auxiliaryEntries (addedColumns p) i).getD l 0 =
        (firstState p).body.get i (p.variableNames.length + l) ∧
      ((addedColumns p).flatten.map (·.name)).getD l "" =
        (firstState p).columnName (p.variableNames.length + l) := by
    constructor
    · change _ = ((firstTableau p).body.row i).getD _ 0
      have hlength := rowsOf_length_coefficients (List.getElem_mem hi)
      rw [firstTableau_row hi, List.getD_append_right _ _ _ _ (by omega), hlength,
        Nat.add_sub_cancel_left]
    · change _ = (p.variableNames ++ (addedColumns p).flatten.map (·.name)).getD _ ""
      rw [List.getD_append_right _ _ _ _ (by omega), Nat.add_sub_cancel_left]
  have hlength : (auxiliaryEntries (addedColumns p) i).length =
      ((addedColumns p).flatten.map (·.name)).length := by
    rw [auxiliaryEntries_length, List.length_map]
  have hwritten : n ∈ (auxiliaries p.goal i (rowsOf p)[i]).map (·.name) ↔
      ∃ x, (x, n) ∈ written ((addedColumns p).flatten.map (·.name))
        (auxiliaryEntries (addedColumns p) i) := by
    rw [written_added hi]
    simp
  simp only [hwritten, mem_written hlength, hcolumn, List.length_map]
  constructor
  · rintro ⟨x, l, hl, rfl, hname, h0⟩
    exact ⟨l, hl, hname, h0⟩
  · rintro ⟨l, hl, hname, h0⟩
    exact ⟨_, l, hl, rfl, hname, h0⟩

theorem namesClash_iff (hi : i < (rowsOf p).length) : (firstState p).NamesClash i ↔
    ∃ n ∈ (written p.variableNames (rowsOf p)[i].coefficients).map (·.2),
      n ∈ (auxiliaries p.goal i (rowsOf p)[i]).map (·.name) := by
  have hcount := columnCount_firstTableau p
  simp only [mem_names_variables hi, mem_names_auxiliaries hi]
  constructor
  · rintro ⟨j, hj, k, hk, hdecision, hadded, hname, hj0, hk0⟩
    have hk : k < (firstTableau p).columnCount := hk
    have hle := not_lt.mp (mt (kinds_eq_decision_iff hk).mpr hadded)
    obtain ⟨l, rfl⟩ := Nat.exists_eq_add_of_le hle
    exact ⟨_, ⟨j, (kinds_eq_decision_iff hj).mp hdecision, hname, hj0⟩, l, by omega, rfl, hk0⟩
  · rintro ⟨_, ⟨j, hj, hname, hj0⟩, l, hl, rfl, hl0⟩
    have hjlt : j < (firstTableau p).columnCount := by omega
    have hllt : p.variableNames.length + l < (firstTableau p).columnCount := by omega
    exact ⟨j, hjlt, _, hllt, (kinds_eq_decision_iff hjlt).mpr hj,
      mt (kinds_eq_decision_iff hllt).mp (by omega), hname, hj0, hl0⟩

theorem map_swap_written_firstTableau (hi : i < (rowsOf p).length) :
    (written (firstTableau p).names ((firstTableau p).body.row i)).map Prod.swap =
      (firstState p).rowTerms i := by
  apply map_swap_written
  have hcount : (firstTableau p).names.length = (firstTableau p).columnCount := rfl
  rw [firstTableau_row hi, hcount, columnCount_firstTableau, List.length_append,
    rowsOf_length_coefficients (List.getElem_mem hi), auxiliaryEntries_length]

/-- Where the variables have different names, columns of a row share one only if a variable has that
of an added column. -/
theorem nodup_rowTerms_iff (hnames : p.variableNames.Nodup) (hi : i < (rowsOf p).length) :
    (((firstState p).rowTerms i).map (·.1)).Nodup ↔ ¬(firstState p).NamesClash i := by
  have hsub : ((written p.variableNames (rowsOf p)[i].coefficients).map (·.2)).Nodup := by
    have hzip : (((rowsOf p)[i].coefficients.zip p.variableNames).map (·.2)) = p.variableNames :=
      List.map_snd_zip (rowsOf_length_coefficients (List.getElem_mem hi)).ge
    refine List.Nodup.sublist (List.filter_sublist.map _) ?_
    rw [hzip]
    exact hnames
  have hterms : ((firstState p).rowTerms i).map (·.1) =
      (written p.variableNames (rowsOf p)[i].coefficients).map (·.2) ++
        (auxiliaries p.goal i (rowsOf p)[i]).map (·.name) := by
    rw [← map_swap_written_firstTableau hi, List.map_map, written_firstTableau hi,
      List.map_append, List.map_map]
    rfl
  rw [hterms, namesClash_iff hi, List.nodup_append', List.disjoint_left]
  simp only [hsub, nodup_auxiliaries, true_and, not_exists, not_and]

theorem writable_firstTableau (hp : p.fault? = none)
    (hnames : ∀ n ∈ p.variableNames, IsName n.toList) (hi : i < (rowsOf p).length)
    (hback : ∀ x ∈ (firstTableau p).body.row i, Scalar.isFinite x = true → ReadsBack x) :
    Writable (written (firstTableau p).names ((firstTableau p).body.row i)) := by
  rintro ⟨x, n⟩ hmem
  have hx := (List.of_mem_zip (List.mem_of_mem_filter hmem)).1
  have hkeep : Scalar.isFinite x = true ∧ IsName n.toList := by
    rw [written_firstTableau hi, List.mem_append] at hmem
    rcases hmem with hmem | hmem
    · obtain ⟨hx, hn⟩ := List.of_mem_zip (List.mem_of_mem_filter hmem)
      exact ⟨(isFinite_rowsOf hp (List.getElem_mem hi)).2 x hx, hnames n hn⟩
    · obtain ⟨a, ha, heq⟩ := List.mem_map.mp hmem
      obtain ⟨rfl, rfl⟩ := Prod.mk.inj heq
      exact ⟨(isFinite_auxiliaries ha).1, isName_auxiliaries ha⟩
  exact ⟨hkeep.1, hback x hx hkeep.1, hkeep.2⟩

end FirstRows

section Lines

variable {text : String} {p : LinearProgram Float} {s : State Float} {i : ℕ}

def rowLine (t : Tableau Float (BigM Float)) (i : ℕ) : String :=
  rowText t.names (t.body.row i) ++ " = " ++ Numeral.text (t.rhs.getD i 0)

theorem names_firstTableau (hp : parse text = .ok p) : p.variableNames.Nodup ∧
    (∀ n ∈ p.variableNames, IsName n.toList) ∧
    ∀ n ∈ (firstTableau p).names, Text.IsLine n := by
  obtain ⟨hnodup, hsame, hobjective⟩ := names_of_parse hp
  have hvariables : ∀ n ∈ p.variableNames, IsName n.toList := by
    intro n hn
    rcases LinearProgram.mem_variableNames.mp hn with hn | ⟨c, hc, hn⟩
    · exact hobjective n hn
    · exact hobjective n (hsame c hc ▸ hn)
  have hline {n : String} (hn : IsName n.toList) : Text.IsLine n := fun hmem =>
    (isPlain_of_isNameChar (hn.nameChar _ hmem)).1 rfl
  refine ⟨LinearProgram.nodup_variableNames hnodup, hvariables, fun n hn => ?_⟩
  rcases List.mem_append.mp hn with hn | hn
  · exact hline (hvariables n hn)
  · obtain ⟨a, ha, rfl⟩ := List.mem_map.mp hn
    obtain ⟨columns, hcolumns, ha⟩ := List.mem_flatten.mp ha
    obtain ⟨⟨row, k⟩, -, rfl⟩ := List.mem_map.mp hcolumns
    exact hline (isName_auxiliaries ha)

/-- The line of a row is read as the columns of the row and its right side. -/
theorem constraint_rowLine (hp : parse text = .ok p) (hvalid : p.fault? = none)
    (hback : ∀ x ∈ (firstTableau p).rhs ++ (firstTableau p).body.rows.flatten,
      Scalar.isFinite x = true → ReadsBack x) (hi : i < (rowsOf p).length) :
    constraint (rowLine (firstTableau p) i).toList =
        .ok ⟨((firstState p).rowTerms i).foldl (fun found t => addTerm found t.1 t.2) [], .equal,
          (firstTableau p).rhs.getD i 0⟩ ∧
      Text.IsLine (rowLine (firstTableau p) i) := by
  obtain ⟨hrhs, hbody⟩ := List.forall_mem_append.mp hback
  have hrow : (firstTableau p).body.row i ∈ (firstTableau p).body.rows :=
    (forall_mem_iff_getD []).mp (fun r hr => hr) i (by rwa [length_rows_firstTableau])
  have hbound : (firstTableau p).rhs.getD i 0 ∈ (firstTableau p).rhs :=
    (forall_mem_iff_getD 0).mp (fun b hb => hb) i (by rwa [length_rhs_firstTableau])
  have hwritable := writable_firstTableau hvalid (names_firstTableau hp).2.1 hi fun x hx =>
    hbody x (List.mem_flatten.mpr ⟨_, hrow, hx⟩)
  have hne : written (firstTableau p).names ((firstTableau p).body.row i) ≠ [] := by
    rw [written_firstTableau hi]
    exact List.append_ne_nil_of_right_ne_nil _ (by simpa using auxiliaries_ne_nil _ _ _)
  have hfinite : Scalar.isFinite ((firstTableau p).rhs.getD i 0) = true := by
    rw [firstTableau_rhs hi]
    exact (isFinite_rowsOf hvalid (List.getElem_mem hi)).1
  have hread := constraint_row hwritable hne hfinite (hrhs _ hbound hfinite)
  rw [← map_swap_written_firstTableau hi, List.foldl_map]
  exact hread

theorem lines_formulation (hp : parse text = .ok p) (hvalid : p.fault? = none)
    (hback : ∀ x ∈ (firstTableau p).rhs ++ (firstTableau p).body.rows.flatten,
      Scalar.isFinite x = true → ReadsBack x) :
    Text.lines (firstState p).formulation.toList =
      (objectiveText p.goal (firstTableau p).names (firstTableau p).cost).toList ::
        (List.range (rowsOf p).length).map fun i => (rowLine (firstTableau p) i).toList := by
  have hrows : (firstTableau p).body.rows.zipWith
      (fun row b => rowText (firstTableau p).names row ++ " = " ++ Numeral.text b)
      (firstTableau p).rhs = (List.range (rowsOf p).length).map (rowLine (firstTableau p)) := by
    have hlength := length_rows_firstTableau p
    have hlength' := length_rhs_firstTableau p
    apply List.ext_getElem (by simp [hlength, hlength'])
    intro i hi _
    obtain ⟨hi, hi'⟩ := lt_min_iff.mp (List.length_zipWith ▸ hi)
    rw [List.getElem_zipWith, List.getElem_map, List.getElem_range, rowLine, Matrix.row,
      List.getD_eq_getElem _ _ hi, List.getD_eq_getElem _ _ hi']
  change Text.lines ("\n".intercalate (_ :: _)).toList = _
  rw [hrows, String.toList_intercalate, List.map_cons, List.map_map]
  refine Text.lines_intercalate (List.cons_ne_nil _ _) (List.forall_mem_cons.mpr
    ⟨isLine_objectiveText _ (names_firstTableau hp).2.2 _, fun l hl => ?_⟩)
  obtain ⟨i, hi, rfl⟩ := List.mem_map.mp hl
  exact (constraint_rowLine hp hvalid hback (List.mem_range.mp hi)).2

/-- Where its numbers read back, the formulation of a program that is read from a text gives every
row back: an equation with the right side of the row, and the terms of its columns with those of one
name added up. These are the columns themselves exactly when no variable has the name of a column
that is added for the row, both with an entry in it. -/
theorem rows_of_formulation (hp : parse text = .ok p) (hs : start p = .ok s)
    (hback : ∀ x ∈ s.rhs ++ s.body.rows.flatten, Scalar.isFinite x = true → ReadsBack x)
    (hi : i < s.rowCount) : ∃ line row, (Text.lines s.formulation.toList)[i + 1]? = some line ∧
      constraint line = .ok row ∧ row.relation = .equal ∧ row.bound = s.rhs.getD i 0 ∧
      row.terms = (s.rowTerms i).foldl (fun found t => addTerm found t.1 t.2) [] ∧
      (¬s.NamesClash i → row.terms = s.rowTerms i) ∧
      (s.NamesClash i → ¬row.terms.Perm (s.rowTerms i)) := by
  unfold start at hs
  split at hs
  · cases hs
  next hvalid =>
  obtain rfl := Except.ok.inj hs
  have hi : i < (rowsOf p).length := by rwa [← rowCount_firstTableau]
  have hdistinct := nodup_rowTerms_iff (names_firstTableau hp).1 hi
  refine ⟨_, _, ?_, (constraint_rowLine hp hvalid hback hi).1, rfl, rfl, rfl, fun h => ?_,
    fun h hperm => ?_⟩
  · rw [lines_formulation hp hvalid hback, List.getElem?_cons_succ, List.getElem?_map,
      List.getElem?_range hi]
    rfl
  · have hnodup : (([] ++ (firstState p).rowTerms i : List (String × Float)).map (·.1)).Nodup :=
      hdistinct.mpr h
    exact foldl_addTerm_of_nodup hnodup
  · have hnil : (([] : List (String × Float)).map (·.1)).Nodup := List.nodup_nil
    have hnodup := nodup_foldl_addTerm ((firstState p).rowTerms i) hnil
    exact hdistinct.mp ((hperm.map _).nodup_iff.mp hnodup) h

/-- A variable that has the name of a slack column, but no entry in its row. -/
def bystander : String := "max z = 2x - 0.5s2\nx - s2 >= -1.5\nx <= 4"

theorem bystander_rows : ∃ (p : LinearProgram Float) (s : State Float) (line : List Char)
    (row : Linear.Row Float), parse bystander = .ok p ∧ start p = .ok s ∧ 1 < s.rowCount ∧
      (∀ x ∈ s.rhs ++ s.body.rows.flatten, Scalar.isFinite x = true → ReadsBack x) ∧
      (Text.lines s.formulation.toList)[2]? = some line ∧ constraint line = .ok row ∧
      ¬s.NamesClash 1 ∧ row.terms = s.rowTerms 1 := by
  have hrun : ((parse bystander : Except _ (LinearProgram Float)).toOption.any fun p =>
      (start p).toOption.any fun s => decide
        ((∀ x ∈ s.rhs ++ s.body.rows.flatten, Scalar.isFinite x = true → ReadsBack x) ∧
          1 < s.rowCount ∧ ¬s.NamesClash 1)) = true := by
    decide +kernel
  obtain ⟨p, hp, hrun⟩ := exists_ok_of_any hrun
  obtain ⟨s, hs, hrun⟩ := exists_ok_of_any hrun
  obtain ⟨hback, hcount, hno⟩ := of_decide_eq_true hrun
  obtain ⟨line, row, hline, hrow, -, -, -, hsame, -⟩ := rows_of_formulation hp hs hback hcount
  exact ⟨p, s, line, row, hp, hs, hcount, hback, hline, hrow, hno, hsame hno⟩

/-- A variable that has the name of the slack column of its row. -/
def namesake : String := "max z = x1 + s1\nx1 + s1 <= 4"

/-- The line `s1 + x1 + s1 = 4` is read as two terms, where the row has entries in three columns. -/
theorem namesake_misread : ∃ (p : LinearProgram Float) (s : State Float) (line : List Char)
    (row : Linear.Row Float), parse namesake = .ok p ∧ start p = .ok s ∧
      (Text.lines s.formulation.toList)[1]? = some line ∧ constraint line = .ok row ∧
      (∀ x ∈ s.rhs ++ s.body.rows.flatten, Scalar.isFinite x = true → ReadsBack x) ∧
      s.rowTerms 0 = [("s1", 1), ("x1", 1), ("s1", 1)] ∧ row.terms = [("s1", 2), ("x1", 1)] := by
  have hrun : ((parse namesake : Except _ (LinearProgram Float)).toOption.any fun p =>
      (start p).toOption.any fun s => (Text.lines s.formulation.toList)[1]?.any fun line =>
        (constraint line : Except _ (Linear.Row Float)).toOption.any fun row => decide
          ((∀ x ∈ s.rhs ++ s.body.rows.flatten, Scalar.isFinite x = true → ReadsBack x) ∧
            s.rowTerms 0 = [("s1", 1), ("x1", 1), ("s1", 1)] ∧
            row.terms = [("s1", 2), ("x1", 1)])) = true := by
    decide +kernel
  obtain ⟨p, hp, hrun⟩ := exists_ok_of_any hrun
  obtain ⟨s, hs, hrun⟩ := exists_ok_of_any hrun
  obtain ⟨line, hline, hrun⟩ := (Option.any_eq_true _ _).mp hrun
  obtain ⟨row, hrow, hrun⟩ := exists_ok_of_any hrun
  exact ⟨p, s, line, row, hp, hs, hline, hrow, of_decide_eq_true hrun⟩

end Lines

end Simplex

end Optima
