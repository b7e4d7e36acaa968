import Mathlib
import Optima.Assignment.State
import Optima.Proofs.Lists

namespace Optima.Assignment.Marks

variable {m : Marks} {n i j : ℕ} {c d : Cell} {k : Mark}

structure Square (m : Marks) (n : ℕ) : Prop where
  rows : m.length = n
  row : ∀ r ∈ m, r.length = n

/-- No row and no column has two stars. -/
structure Independent (m : Marks) : Prop where
  row : ∀ i j l, m.get ⟨i, j⟩ = some .starred → m.get ⟨i, l⟩ = some .starred → j = l
  column : ∀ i l j, m.get ⟨i, j⟩ = some .starred → m.get ⟨l, j⟩ = some .starred → i = l

theorem square_blank (n : ℕ) : (blank n).Square n := by
  refine ⟨List.length_replicate, fun r hr => ?_⟩
  rw [List.eq_of_mem_replicate hr, List.length_replicate]

theorem get_blank (n : ℕ) (c : Cell) : (blank n).get c = none := by
  have hrow : (blank n).getD c.row [] = [] ∨ (blank n).getD c.row [] = List.replicate n none := by
    by_cases h : c.row < n
    · exact .inr (List.getD_replicate _ h)
    · exact .inl (List.getD_eq_default _ _ (by simpa [blank] using h))
  rw [get]
  rcases hrow with h | h
  · rw [h, List.getD_nil]
  · rw [h, List.getD_eq_getElem?_getD, List.getElem?_replicate]
    split_ifs <;> rfl

theorem inRow?_eq_some (h : m.inRow? k i = some j) : m.get ⟨i, j⟩ = some k := by
  obtain ⟨hj, heq, -⟩ := List.findIdx?_eq_some_iff_getElem.mp h
  rw [get, List.getD_eq_getElem _ _ hj]
  exact beq_iff_eq.mp heq

theorem inRow?_eq_none (h : m.inRow? k i = none) (j : ℕ) : m.get ⟨i, j⟩ ≠ some k := by
  have hall := List.findIdx?_eq_none_iff.mp h
  intro hj
  rw [get] at hj
  by_cases hlt : j < (m.getD i []).length
  · rw [List.getD_eq_getElem _ _ hlt] at hj
    exact beq_eq_false_iff_ne.mp (hall _ (List.getElem_mem hlt)) hj
  · rw [List.getD_eq_default _ _ (not_lt.mp hlt)] at hj
    exact Option.some_ne_none _ hj.symm

theorem inColumn?_eq_some (h : m.inColumn? k j = some i) : m.get ⟨i, j⟩ = some k := by
  obtain ⟨hi, heq, -⟩ := List.findIdx?_eq_some_iff_getElem.mp h
  rw [get, List.getD_eq_getElem _ _ hi]
  exact beq_iff_eq.mp heq

theorem inColumn?_eq_none (h : m.inColumn? k j = none) (i : ℕ) : m.get ⟨i, j⟩ ≠ some k := by
  have hall := List.findIdx?_eq_none_iff.mp h
  intro hi
  rw [get] at hi
  by_cases hlt : i < m.length
  · rw [List.getD_eq_getElem _ _ hlt] at hi
    exact beq_eq_false_iff_ne.mp (hall _ (List.getElem_mem hlt)) hi
  · rw [List.getD_eq_default _ _ (not_lt.mp hlt)] at hi
    simp at hi

theorem inRow?_eq_none_iff : m.inRow? k i = none ↔ ∀ j, m.get ⟨i, j⟩ ≠ some k := by
  refine ⟨inRow?_eq_none, fun h => ?_⟩
  cases hrow : m.inRow? k i with
  | none => rfl
  | some j => exact absurd (inRow?_eq_some hrow) (h j)

theorem inColumn?_eq_none_iff : m.inColumn? k j = none ↔ ∀ i, m.get ⟨i, j⟩ ≠ some k := by
  refine ⟨inColumn?_eq_none, fun h => ?_⟩
  cases hcolumn : m.inColumn? k j with
  | none => rfl
  | some i => exact absurd (inColumn?_eq_some hcolumn) (h i)

theorem get_erasePrimes (m : Marks) (c : Cell) :
    m.erasePrimes.get c = if m.get c = some .primed then none else m.get c := by
  have hrow : m.erasePrimes.getD c.row [] =
      (m.getD c.row []).map fun mark => if mark = some .primed then none else mark := by
    rw [erasePrimes, ← List.getD_map (f := List.map _)]
    rfl
  rw [get, hrow, get]
  by_cases hlt : c.column < (m.getD c.row []).length
  · rw [List.getD_eq_getElem _ _ (by rwa [List.length_map]), List.getElem_map,
      List.getD_eq_getElem _ _ hlt]
  · rw [List.getD_eq_default _ _ (by rwa [List.length_map, ← not_lt]),
      List.getD_eq_default _ _ (not_lt.mp hlt), if_neg (Option.some_ne_none _).symm]

namespace Square

theorem lt_of_get (h : m.Square n) (hc : m.get c = some k) : c.row < n ∧ c.column < n := by
  rw [get] at hc
  have hrow : c.row < m.length := by
    by_contra hlt
    rw [List.getD_eq_default _ _ (not_lt.mp hlt)] at hc
    simp at hc
  rw [List.getD_eq_getElem _ _ hrow] at hc
  have hcolumn : c.column < m[c.row].length := by
    by_contra hlt
    rw [List.getD_eq_default _ _ (not_lt.mp hlt)] at hc
    simp at hc
  exact ⟨h.rows ▸ hrow, h.row _ (List.getElem_mem hrow) ▸ hcolumn⟩

theorem set (h : m.Square n) (c : Cell) (x : Option Mark) : (m.set c x).Square n := by
  have hset : m.set c x = m.modify c.row (·.set c.column x) := rfl
  rw [hset]
  refine ⟨(List.length_modify _ _ _).trans h.rows, fun r hr => ?_⟩
  obtain ⟨i, hi, rfl⟩ := List.getElem_of_mem hr
  have hi' : i < m.length := by simpa using hi
  rw [List.getElem_modify]
  split_ifs
  · rw [List.length_set, h.row _ (List.getElem_mem hi')]
  · exact h.row _ (List.getElem_mem hi')

theorem get_set (h : m.Square n) (hrow : c.row < n) (hcolumn : c.column < n) (x : Option Mark)
    (d : Cell) : (m.set c x).get d = if d = c then x else m.get d := by
  obtain ⟨i, j⟩ := c
  obtain ⟨k, l⟩ := d
  have hi : i < m.length := h.rows.symm ▸ hrow
  have hj : j < m[i].length := (h.row _ (List.getElem_mem hi)).symm ▸ hcolumn
  change ((m.modify i (·.set j x)).getD k []).getD l none =
    if _ then x else (m.getD k []).getD l none
  rw [getD_modify hi]
  by_cases hki : k = i
  · subst hki
    rw [if_pos rfl, List.getD_eq_getElem _ _ hi, getD_set hj]
    simp
  · simp [hki]

theorem erasePrimes (h : m.Square n) : m.erasePrimes.Square n := by
  refine ⟨(List.length_map _).trans h.rows, fun r hr => ?_⟩
  obtain ⟨s, hs, rfl⟩ := List.mem_map.mp hr
  rw [List.length_map, h.row s hs]

/-- Flipping each cell of a list once changes these cells and nothing else. -/
theorem foldl_flip (h : m.Square n) {path : List Cell} (hnodup : path.Nodup)
    (hlt : ∀ c ∈ path, c.row < n ∧ c.column < n) : (path.foldl flip m).Square n ∧
      ∀ d, (path.foldl flip m).get d =
        if d ∈ path then if m.get d = some .starred then none else some .starred else m.get d := by
  induction path generalizing m with
  | nil => exact ⟨h, fun d => (if_neg List.not_mem_nil).symm⟩
  | cons c path ih =>
    obtain ⟨hc, hnodup⟩ := List.nodup_cons.mp hnodup
    obtain ⟨hrow, hcolumn⟩ := hlt c List.mem_cons_self
    obtain ⟨hsquare, hget⟩ := ih (h.set c _) hnodup fun d hd => hlt d (List.mem_cons_of_mem c hd)
    refine ⟨hsquare, fun d => ?_⟩
    rw [List.foldl_cons, flip, hget, h.get_set hrow hcolumn]
    by_cases hd : d = c
    · subst hd
      simp [hc]
    · simp [hd]

end Square

end Optima.Assignment.Marks
