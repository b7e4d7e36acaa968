import Optima.Proofs.Linear.Grammar

namespace Optima.Linear

variable {ts : List TermText} {t : TermText} {n : String}

def total (ts : List TermText) (n : String) : ℚ :=
  ((ts.filter (·.key = n)).map TermText.coefficient).sum

/-- The names in the order of their first places, with their sums. -/
def totals (ts : List TermText) : List (String × ℚ) :=
  (ts.map TermText.key).eraseDups.map fun n => (n, total ts n)

section Totals

theorem total_concat (ts : List TermText) (t : TermText) (n : String) :
    total (ts ++ [t]) n = if n = t.key then total ts n + t.coefficient else total ts n := by
  rw [total, List.filter_append, List.map_append, List.sum_append]
  by_cases hn : n = t.key
  · rw [if_pos hn, List.filter_cons_of_pos (by simp [hn])]
    simp [total]
  · rw [if_neg hn, List.filter_cons_of_neg (by simp [Ne.symm hn])]
    simp [total]

theorem total_eq_zero (hn : n ∉ ts.map TermText.key) : total ts n = 0 := by
  have hnone : ts.filter (·.key = n) = [] := by
    apply List.filter_eq_nil_iff.mpr
    intro t ht hkey
    exact hn (List.mem_map.mpr ⟨t, ht, of_decide_eq_true hkey⟩)
  rw [total, hnone, List.map_nil, List.sum_nil]

theorem eraseDups_concat (names : List String) (n : String) :
    (names ++ [n]).eraseDups =
      if n ∈ names then names.eraseDups else names.eraseDups ++ [n] := by
  rw [List.eraseDups_append]
  split_ifs with h
  · simp [List.removeAll, h]
  · simp [List.removeAll, h, List.eraseDups_cons]

/-- A name that is there already grows by the number of a further term. -/
theorem totals_concat_of_mem (h : t.key ∈ ts.map TermText.key) : totals (ts ++ [t]) =
    (totals ts).map fun (n, k) => if n == t.key then (n, k + t.coefficient) else (n, k) := by
  rw [totals, totals, List.map_append, List.map_singleton, eraseDups_concat, if_pos h,
    List.map_map]
  refine List.map_congr_left fun n _ => ?_
  rw [total_concat]
  by_cases hn : n = t.key
  · simp [hn]
  · simp [hn]

theorem totals_concat_of_not_mem (h : t.key ∉ ts.map TermText.key) :
    totals (ts ++ [t]) = totals ts ++ [(t.key, t.coefficient)] := by
  rw [totals, List.map_append, List.map_singleton, eraseDups_concat, if_neg h, List.map_append,
    List.map_singleton, total_concat, if_pos rfl, total_eq_zero h, zero_add, totals]
  refine congrArg (· ++ _) (List.map_congr_left fun n hn => ?_)
  have hne : n ≠ t.key := by
    rintro rfl
    exact h (List.mem_eraseDups.mp hn)
  rw [total_concat, if_neg hne]

end Totals

/-- Term by term the reader keeps the sums up to there. -/
theorem collect_eq_totals (ts : List TermText) : collect ts = totals ts := by
  induction ts using List.reverseRecOn with
  | nil => rfl
  | append_singleton ts t ih =>
    have hstep : collect (ts ++ [t]) = addTerm (collect ts) t.key t.coefficient :=
      List.foldl_append
    have hany : (collect ts).any (·.1 == t.key) = true ↔ t.key ∈ ts.map TermText.key := by
      rw [any_name_eq_contains, List.contains_iff_mem, mem_collect, List.mem_map]
    rw [hstep, addTerm]
    by_cases h : t.key ∈ ts.map TermText.key
    · rw [if_pos (hany.mpr h), totals_concat_of_mem h, ih]
    · rw [if_neg (mt hany.mp h), totals_concat_of_not_mem h, ih]

section Runs

/-- The number and the name of a term reach as far as they can in the text after it. -/
structure TermText.Ends (t : TermText) (rest : List Char) : Prop where
  number : ∀ c ∈ (t.gap ++ (t.name ++ rest)).head?, isNumeric c = false
  name : ∀ c ∈ rest.head?, isNameChar c = false

theorem TermText.isNumeric_head?_gap (t : TermText) (rest : List Char) :
    ∀ c ∈ (t.gap ++ (t.name ++ rest)).head?, isNumeric c = false := by
  intro c hc
  cases hgap : t.gap with
  | nil =>
    rw [hgap] at hc
    exact isNumeric_of_isAlpha (t.name_isName.head?_append rest c hc)
  | cons g gap =>
    rw [hgap] at hc
    obtain rfl := Option.some.inj hc
    exact isNumeric_of_isLead (isLead_of_isBlank (t.gap_isBlank g (hgap ▸ List.mem_cons_self)))

/-- There is one way only to cut a sum, but for the blanks: what could go on does. -/
theorem Spells.ends {cs : List Char} {before after : List TermText}
    (h : Spells cs (before ++ t :: after)) : ∃ rest,
      cs = (before.map TermText.text).flatten ++ (t.text ++ rest) ∧ t.Ends rest := by
  obtain ⟨-, hsigned, blanks, hblanks, rfl⟩ := h
  refine ⟨(after.map TermText.text).flatten ++ blanks, by simp, t.isNumeric_head?_gap _, ?_⟩
  apply isNameChar_head?_texts _ hblanks
  intro u hu
  refine hsigned u ?_
  cases before with
  | nil => exact hu
  | cons b before => simp [hu]

end Runs

/-- A text is read exactly when it is a sum of terms, and then as each name's sum. -/
theorem expression_eq_ok_iff_totals (s : String) :
    (∀ result, expression s.toList = .ok result ↔
      ∃ ts, Spells s.toList ts ∧ result = totals ts) ∧
    ∀ before t after, Spells s.toList (before ++ t :: after) → ∃ rest,
      s.toList = (before.map TermText.text).flatten ++ (t.text ++ rest) ∧ t.Ends rest := by
  refine ⟨fun result => ?_, fun before t after h => h.ends⟩
  rw [expression_eq_ok_iff]
  simp only [collect_eq_totals]

end Optima.Linear
