import Mathlib

namespace Optima

variable {α β M : Type}

/-- Where the list of an index starts in the concatenation. -/
def chunkStart (xss : List (List α)) (i : ℕ) : ℕ := ((xss.take i).map List.length).sum

@[simp] theorem chunkStart_zero (xss : List (List α)) : chunkStart xss 0 = 0 := rfl

@[simp] theorem chunkStart_cons_succ (xs : List α) (xss : List (List α)) (i : ℕ) :
    chunkStart (xs :: xss) (i + 1) = xs.length + chunkStart xss i := rfl

theorem chunkStart_succ (xss : List (List α)) (i : ℕ) :
    chunkStart xss (i + 1) = chunkStart xss i + (xss.getD i []).length := by
  induction xss generalizing i with
  | nil => simp [chunkStart]
  | cons xs xss ih =>
    cases i with
    | zero => simp
    | succ i => rw [chunkStart_cons_succ, chunkStart_cons_succ, ih, List.getD_cons_succ, add_assoc]

theorem chunkStart_congr {xss : List (List α)} {yss : List (List β)}
    (h : xss.map List.length = yss.map List.length) (i : ℕ) :
    chunkStart xss i = chunkStart yss i := by
  rw [chunkStart, chunkStart, List.map_take, List.map_take, h]

theorem getElem?_flatten_chunk (xss : List (List α)) {i l : ℕ} (hl : l < (xss.getD i []).length) :
    xss.flatten[chunkStart xss i + l]? = (xss.getD i [])[l]? := by
  induction xss generalizing i with
  | nil => simp at hl
  | cons xs xss ih =>
    cases i with
    | zero =>
      rw [List.getD_cons_zero] at hl ⊢
      rw [List.flatten_cons, chunkStart_zero, zero_add, List.getElem?_append_left hl]
    | succ i =>
      rw [List.getD_cons_succ] at hl ⊢
      rw [List.flatten_cons, chunkStart_cons_succ, add_assoc,
        List.getElem?_append_right (Nat.le_add_right _ _), Nat.add_sub_cancel_left, ih hl]

theorem chunkStart_add_lt (xss : List (List α)) {i l : ℕ} (hl : l < (xss.getD i []).length) :
    chunkStart xss i + l < xss.flatten.length := by
  by_contra h
  have hnone := getElem?_flatten_chunk xss hl
  rw [List.getElem?_eq_none (not_lt.mp h), List.getElem?_eq_getElem hl] at hnone
  simp at hnone

theorem exists_chunk (xss : List (List α)) {k : ℕ} (hk : k < xss.flatten.length) :
    ∃ i l, i < xss.length ∧ l < (xss.getD i []).length ∧ k = chunkStart xss i + l := by
  induction xss generalizing k with
  | nil => simp at hk
  | cons xs xss ih =>
    by_cases h : k < xs.length
    · exact ⟨0, k, by simp, by simpa using h, by simp⟩
    · rw [List.flatten_cons, List.length_append] at hk
      obtain ⟨i, l, hi, hl, hkl⟩ := ih (k := k - xs.length) (by omega)
      exact ⟨i + 1, l, by simpa using hi, by simpa using hl, by rw [chunkStart_cons_succ]; omega⟩

theorem sum_flatten [AddCommMonoid M] (xss : List (List α)) (f : ℕ → M) :
    ∑ k ∈ Finset.range xss.flatten.length, f k =
      ∑ i ∈ Finset.range xss.length, ∑ l ∈ Finset.range (xss.getD i []).length,
        f (chunkStart xss i + l) := by
  induction xss generalizing f with
  | nil => simp
  | cons xs xss ih =>
    rw [List.flatten_cons, List.length_append, Finset.sum_range_add, ih fun k => f (xs.length + k),
      List.length_cons, Finset.sum_range_succ', add_comm]
    simp only [List.getD_cons_succ, List.getD_cons_zero, chunkStart_cons_succ, chunkStart_zero,
      zero_add, add_assoc]

end Optima
