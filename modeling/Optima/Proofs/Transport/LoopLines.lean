import Mathlib
import Optima.Proofs.Transport.Forest
import Optima.Proofs.Transport.Spanning

namespace Optima.Transport

open Improvement

variable {plan : Plan ℚ} {first c d e : Cell} {path before before' cells : List Cell}
  {alongRow flag : Bool} {theta : ℚ}

def gaining (cells : List Cell) : List Cell :=
  (cells.zipIdx.filter fun (_, i) => i % 2 == 0).map (·.1)

def turns (gains : Bool) (cells : List Cell) : List Cell :=
  if gains then gaining cells else losing cells

section Turns

theorem gaining_append (cells : List Cell) (c : Cell) :
    gaining (cells ++ [c]) = gaining cells ++ if cells.length % 2 = 0 then [c] else [] := by
  rw [gaining, List.zipIdx_append, List.filter_append, List.map_append, gaining]
  by_cases h : cells.length % 2 = 0 <;> simp [h]

theorem mem_turns_cons (hflag : path.length % 2 = if alongRow then 1 else 0)
    (hd : d ∈ turns flag (c :: path).reverse) :
    d ∈ turns flag path.reverse ∨ d = c ∧ flag = !alongRow := by
  rw [List.reverse_cons] at hd
  cases flag <;> cases alongRow <;>
    simpa [turns, gaining_append, losing_append, hflag] using hd

theorem mem_turns (hd : d ∈ cells) : d ∈ gaining cells ∨ d ∈ losing cells := by
  obtain ⟨i, hi, rfl⟩ := List.getElem_of_mem hd
  have hmem : (cells[i], i) ∈ cells.zipIdx :=
    List.mk_mem_zipIdx_iff_getElem?.mpr (List.getElem?_eq_getElem hi)
  rcases Nat.mod_two_eq_zero_or_one i with heven | hodd
  · exact .inl (List.mem_map.mpr ⟨_, List.mem_filter.mpr ⟨hmem, by simp [heven]⟩, rfl⟩)
  · exact .inr (List.mem_map.mpr ⟨_, List.mem_filter.mpr ⟨hmem, by simp [hodd]⟩, rfl⟩)

/-- What gains and what loses among some cells, counted by a unit moved around the loop. -/
theorem sum_changes_eq_count (P : Cell → Prop) [DecidablePred P] (cells : List Cell) :
    ((changes 1 cells).map fun a => (if P a.1 then 1 else 0) * a.2).sum =
      ((gaining cells).countP P : ℚ) - (losing cells).countP P := by
  induction cells using List.reverseRecOn with
  | nil => simp [changes, gaining, losing]
  | append_singleton cells c ih =>
    rw [changes_append, gaining_append, losing_append, List.map_append, List.sum_append, ih]
    rcases Nat.mod_two_eq_zero_or_one cells.length with heven | hodd
    · by_cases hc : P c <;> simp [heven, hc]
      ring
    · by_cases hc : P c <;> simp [hodd, hc]
      ring

/-- In every line as many cells gain as lose. -/
theorem IsLoop.countP_eq (h : IsLoop plan first cells) (alongRow : Bool) (l : ℕ ⊕ ℕ) :
    (gaining cells).countP (·.line alongRow = l) = (losing cells).countP (·.line alongRow = l) := by
  have hsum : ((changes 1 cells).map fun a =>
      (if a.1.line alongRow = l then 1 else 0) * a.2).sum = (0 : ℚ) := by
    cases alongRow with
    | true => exact h.sum_row (fun i => if .inl i = l then 1 else 0) 1
    | false => exact h.sum_column (fun j => if .inr j = l then 1 else 0) 1
  rw [sum_changes_eq_count fun c => c.line alongRow = l, sub_eq_zero] at hsum
  exact_mod_cast hsum

/-- A loop that comes to a line has a cell there that gains and one that loses. -/
theorem IsLoop.exists_turn (h : IsLoop plan first cells) (hd : d ∈ cells) (alongRow gains : Bool) :
    ∃ e ∈ turns gains cells, e.line alongRow = d.line alongRow := by
  have heq := h.countP_eq alongRow (d.line alongRow)
  have hpos : 0 < (gaining cells).countP (·.line alongRow = d.line alongRow) ∨
      0 < (losing cells).countP (·.line alongRow = d.line alongRow) :=
    (mem_turns hd).imp (fun hd => List.countP_pos_iff.mpr ⟨d, hd, by simp⟩)
      fun hd => List.countP_pos_iff.mpr ⟨d, hd, by simp⟩
  have hturn : 0 < (turns gains cells).countP (·.line alongRow = d.line alongRow) := by
    cases gains with
    | true =>
      change 0 < (gaining cells).countP _
      omega
    | false =>
      change 0 < (losing cells).countP _
      omega
  obtain ⟨e, he, hline⟩ := List.countP_pos_iff.mp hturn
  exact ⟨e, he, of_decide_eq_true hline⟩

end Turns

namespace Trail

/-- Up to a cell that gains a trail goes on along a row, up to one that loses along a column. -/
theorem exists_suffix_of_turn (h : Trail plan first path alongRow)
    (hd : d ∈ turns flag path.reverse) :
    ∃ before, Trail plan first (d :: before) flag ∧ d :: before <:+ path := by
  induction h with
  | start =>
    cases flag with
    | true =>
      obtain rfl := List.mem_singleton.mp hd
      exact ⟨[], .start, List.suffix_refl _⟩
    | false => exact absurd hd List.not_mem_nil
  | @row path c h hc hbasic hnew ih =>
    rcases mem_turns_cons h.length_mod_two hd with hd | ⟨rfl, rfl⟩
    · obtain ⟨before, htrail, hsuffix⟩ := ih hd
      exact ⟨before, htrail, hsuffix.trans (List.suffix_cons c path)⟩
    · exact ⟨path, h.row hc hbasic hnew, List.suffix_refl _⟩
  | @column path c h hc hbasic hnew ih =>
    rcases mem_turns_cons h.length_mod_two hd with hd | ⟨rfl, rfl⟩
    · obtain ⟨before, htrail, hsuffix⟩ := ih hd
      exact ⟨before, htrail, hsuffix.trans (List.suffix_cons c path)⟩
    · exact ⟨path, h.column hc hbasic hnew, List.suffix_refl _⟩

variable (huntied : Untied plan.cells)
include huntied

/-- Where a closed trail comes back to the column of its first cell, it ends. -/
theorem eq_first_of_column (h : Trail plan first path false)
    (hclosed : (path.headD first).column = first.column) (hd : Trail plan first (d :: before) true)
    (hsuffix : d :: before <:+ path) (hcolumn : d.column = first.column) : d = first := by
  rcases hd.cons_cases with ⟨heq, -, -⟩ | ⟨hbefore, hshared, -, -⟩
  · exact heq
  · have hline : (before.headD first).line false = (path.headD first).line false :=
      hshared.symm.trans (congrArg Sum.inr (hcolumn.trans hclosed.symm))
    have hlength := hsuffix.length_le
    rw [hbefore.unique huntied h hline, List.length_cons] at hlength
    omega

/-- A closed trail comes to a line but once along rows, and but once along columns. -/
theorem eq_of_line_eq (h : Trail plan first path false)
    (hclosed : (path.headD first).column = first.column)
    (hd : Trail plan first (d :: before) flag) (hds : d :: before <:+ path)
    (he : Trail plan first (e :: before') flag) (hes : e :: before' <:+ path)
    (hline : d.line alongRow = e.line alongRow) : d = e := by
  by_cases hflag : alongRow = flag
  · subst hflag
    exact (List.cons.inj (hd.unique huntied he hline)).1
  · obtain rfl : alongRow = !flag := Bool.eq_not_of_ne hflag
    -- the cells before them come to that line in the other direction
    rcases hd.cons_cases with ⟨rfl, -, rfl⟩ | ⟨hbefore, hshared, -, -⟩
    · exact (h.eq_first_of_column huntied hclosed he hes (Sum.inr_injective hline).symm).symm
    · rcases he.cons_cases with ⟨rfl, -, rfl⟩ | ⟨hbefore', hshared', -, -⟩
      · exact h.eq_first_of_column huntied hclosed hd hds (Sum.inr_injective hline)
      · obtain rfl := hbefore.unique huntied hbefore' (hshared.symm.trans (hline.trans hshared'))
        have hlists := List.suffix_of_suffix_length_le hds hes le_rfl
        exact (List.cons.inj (hlists.eq_of_length rfl)).1

end Trail

/-- In each line that a loop meets, one cell gains and one cell loses. -/
theorem IsLoop.existsUnique_turn (h : IsLoop plan first cells) (huntied : Untied plan.cells)
    (hd : d ∈ cells) (alongRow gains : Bool) :
    ∃! e, e ∈ turns gains cells ∧ e.line alongRow = d.line alongRow := by
  obtain ⟨e, he, hline⟩ := h.exists_turn hd alongRow gains
  refine ⟨e, ⟨he, hline⟩, fun e' ⟨he', hline'⟩ => ?_⟩
  obtain ⟨path, htrail, hclosed, -, rfl⟩ := h
  obtain ⟨before, hbefore, hsuffix⟩ := htrail.exists_suffix_of_turn he
  obtain ⟨before', hbefore', hsuffix'⟩ := htrail.exists_suffix_of_turn he'
  exact htrail.eq_of_line_eq huntied hclosed hbefore' hsuffix' hbefore hsuffix
    (hline'.trans hline.symm)

namespace Transfer

/-- Around a loop the cell that is used up can be exchanged for the new one. -/
theorem untied_moved (h : Transfer plan first cells c theta) (huntied : Untied plan.cells) :
    Untied (moved cells theta plan).cells := by
  have hmoved (d : Cell) (hd : d ∈ (moved cells theta plan).cells) :
      d ≠ c ∧ (d = first ∨ d ∈ plan.cells) :=
    ⟨h.ne_of_mem_moved hd, h.mem_cells_of_shifted (h.amount_of_mem_moved hd).2.2⟩
  -- values that differ across the cell used up differ across the new one
  obtain ⟨f, hf, hc⟩ := huntied c (h.mem_cells h.losing)
  have hfirst : f (.inl first.row) ≠ f (.inr first.column) := by
    intro heq
    apply hc
    apply h.loop.agree h.losing
    intro d hd hdc
    rcases h.loop.isBasic_of_mem hd with rfl | hbasic
    · exact heq
    · exact hf d (Plan.mem_of_isBasic hbasic) hdc
  intro d hd
  obtain ⟨hdc, hd⟩ := hmoved d hd
  by_cases hdf : d = first
  · subst hdf
    refine ⟨f, fun e he hed => ?_, hfirst⟩
    obtain ⟨hec, he⟩ := hmoved e he
    exact hf e (he.resolve_left hed) hec
  · have hd := hd.resolve_left hdf
    obtain ⟨g, hg, hdiffer⟩ := huntied d hd
    have hgap : f (.inl first.row) - f (.inr first.column) ≠ 0 := sub_ne_zero.mpr hfirst
    -- a multiple of them makes the other values agree across the new cell
    refine ⟨fun l => g l - (g (.inl first.row) - g (.inr first.column)) /
      (f (.inl first.row) - f (.inr first.column)) * f l, fun e he hed => ?_, ?_⟩
    · obtain ⟨hec, he⟩ := hmoved e he
      rcases he with rfl | he
      · have hcancel := div_mul_cancel₀ (g (.inl e.row) - g (.inr e.column)) hgap
        rw [mul_sub] at hcancel
        linarith
      · simp only [hg e he hed, hf e he hec]
    · simp only [hf d hd hdc, ne_eq, sub_left_inj]
      exact hdiffer

end Transfer

end Optima.Transport
