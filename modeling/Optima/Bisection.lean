namespace Optima.Bisection

variable {α : Type}

/-- Halves a stretch of a list, keeping the lower half if the element in the middle lies beyond. The
first number bounds the halvings. -/
def narrow (beyond : α → Bool) (xs : List α) : Nat → Nat → Nat → Nat
  | 0, start, _ => start
  | n + 1, start, size =>
    if size ≤ 1 then start
    else
      let middle := start + size / 2
      narrow beyond xs n (if xs[middle]?.any beyond then start else middle) (size - size / 2)

/-- The last position whose element does not lie beyond, or the first if there is none. -/
def lastWithin (beyond : α → Bool) (xs : List α) : Nat := narrow beyond xs xs.length 0 xs.length

def countWithin (beyond : α → Bool) (xs : List α) : Nat := (xs.takeWhile (!beyond ·)).length

theorem countWithin_cons (beyond : α → Bool) (x : α) (xs : List α) :
    countWithin beyond (x :: xs) = if beyond x then 0 else countWithin beyond xs + 1 := by
  by_cases h : beyond x <;> simp [countWithin, h]

theorem countWithin_le (beyond : α → Bool) (xs : List α) :
    countWithin beyond xs ≤ xs.length :=
  (List.takeWhile_sublist _).length_le

theorem any_getElem? {beyond : α → Bool} {xs : List α}
    (h : xs.Pairwise fun x y => beyond x → beyond y) {i : Nat} (hi : i < xs.length) :
    xs[i]?.any beyond ↔ countWithin beyond xs ≤ i := by
  induction xs generalizing i with
  | nil => simp at hi
  | cons x xs ih =>
    rw [List.pairwise_cons] at h
    rw [countWithin_cons]
    cases i with
    | zero => by_cases hx : beyond x <;> simp [hx]
    | succ i =>
      have hi : i < xs.length := by simpa using hi
      by_cases hx : beyond x
      · simp [hx, hi, h.1 xs[i] (List.getElem_mem hi) hx]
      · simpa [hx] using ih h.2 hi

theorem narrow_eq {beyond : α → Bool} {xs : List α}
    (h : xs.Pairwise fun x y => beyond x → beyond y) {n start size : Nat}
    (hn : size ≤ n) (hstart : start = 0 ∨ start < countWithin beyond xs)
    (hsize : countWithin beyond xs ≤ start + size) (hlength : start + size ≤ xs.length) :
    narrow beyond xs n start size = countWithin beyond xs - 1 := by
  induction n generalizing start size with
  | zero => rw [narrow]; omega
  | succ n ih =>
    rw [narrow]
    split
    · omega
    · have hm : start + size / 2 < xs.length := by omega
      have key := any_getElem? h hm
      by_cases hb : xs[start + size / 2]?.any beyond
      · have := key.1 hb
        simp only [hb, ↓reduceIte]
        exact ih (by omega) hstart (by omega) (by omega)
      · have := mt key.2 hb
        simp only [hb, Bool.false_eq_true, ↓reduceIte]
        exact ih (by omega) (by omega) (by omega) (by omega)

theorem lastWithin_eq {beyond : α → Bool} {xs : List α}
    (h : xs.Pairwise fun x y => beyond x → beyond y) :
    lastWithin beyond xs = countWithin beyond xs - 1 :=
  narrow_eq h (Nat.le_refl _) (.inl rfl) (by simpa using countWithin_le beyond xs) (by simp)

end Optima.Bisection
