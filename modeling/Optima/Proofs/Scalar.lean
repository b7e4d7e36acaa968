import Mathlib
import Optima.Scalar

namespace Optima

namespace Scalar

theorem tolerance_eq : (tolerance : ℚ) = 1 / 10 ^ 9 := by norm_num [tolerance]

theorem tolerance_pos : (0 : ℚ) < tolerance := by
  rw [tolerance_eq]
  norm_num

theorem tolerance_lt_one : (tolerance : ℚ) < 1 := by
  rw [tolerance_eq]
  norm_num

theorem magnitude_eq_abs (x : ℚ) : magnitude x = |x| := by
  unfold magnitude
  split_ifs with h
  · exact (abs_of_neg h).symm
  · exact (abs_of_nonneg (not_lt.mp h)).symm

theorem isNegligible_iff {x : ℚ} : isNegligible x = true ↔ |x| ≤ tolerance := by
  rw [isNegligible, decide_eq_true_iff, magnitude_eq_abs]

/-- Zero, or larger than the tolerance. -/
def IsClear (x : ℚ) : Prop := x ≠ 0 → tolerance < |x|

instance (x : ℚ) : Decidable (IsClear x) := inferInstanceAs (Decidable (_ → _))

theorem snap_zero : snap (0 : ℚ) = 0 := by simp [snap]

theorem snap_of_lt {x : ℚ} (h : tolerance < |x|) : snap x = x := by
  rw [snap, if_neg (by simpa [isNegligible_iff] using h)]

theorem IsClear.snap_eq {x : ℚ} (h : IsClear x) : snap x = x := by
  by_cases hx : x = 0
  · rw [hx, snap_zero]
  · exact snap_of_lt (h hx)

/-- Nothing that is clear of the tolerance is counted as zero without being it. -/
theorem IsClear.significant_eq {x : ℚ} (h : IsClear x) :
    (if magnitude x ≤ tolerance then 0 else x) = x := by
  rw [magnitude_eq_abs]
  split_ifs with hle
  · by_contra hne
    exact absurd (h (Ne.symm hne)) (not_lt.mpr hle)
  · rfl

theorem IsClear.tolerance_lt {x : ℚ} (h : IsClear x) (hx : 0 < x) : tolerance < x := by
  have := h hx.ne'
  rwa [abs_of_pos hx] at this

theorem IsClear.neg {x : ℚ} (h : IsClear x) : IsClear (-x) := by
  intro hx
  rw [abs_neg]
  exact h (neg_ne_zero.mp hx)

/-- What is clear of the tolerance is not slightly negative. -/
theorem IsClear.nonneg {x : ℚ} (h : IsClear x) (hx : -tolerance ≤ x) : 0 ≤ x := by
  by_contra hneg
  have := h.neg.tolerance_lt (neg_pos.mpr (not_le.mp hneg))
  linarith

theorem isClear_snap (x : ℚ) : IsClear (snap x) := by
  by_cases h : |x| ≤ tolerance
  · rw [snap, if_pos (isNegligible_iff.mpr h)]
    intro hx
    exact absurd rfl hx
  · rw [snap_of_lt (not_le.mp h)]
    intro _
    exact not_le.mp h

theorem snap_nonneg {x : ℚ} (h : 0 ≤ x) : 0 ≤ snap x := by
  unfold snap
  split_ifs
  · exact le_rfl
  · exact h

theorem snap_le {x : ℚ} (h : 0 ≤ x) : snap x ≤ x := by
  unfold snap
  split_ifs
  · exact h
  · exact le_rfl

theorem neg_tolerance_le_snap {x : ℚ} : -tolerance ≤ snap x ↔ -tolerance ≤ x := by
  unfold snap
  split_ifs with h
  · rw [isNegligible_iff, abs_le] at h
    exact iff_of_true (neg_nonpos.mpr tolerance_pos.le) h.1
  · rfl

theorem snap_one : snap (1 : ℚ) = 1 := snap_of_lt (by rw [abs_one]; exact tolerance_lt_one)

theorem isFinite_rat (x : ℚ) : isFinite x = true := by simp [isFinite]

theorem sign_eq_gt {x : ℚ} : sign x = .gt ↔ 0 < x := by
  unfold sign
  split_ifs with h h'
  · simp [h]
  · simp [h]
  · simp [h]

theorem sign_eq_lt {x : ℚ} : sign x = .lt ↔ x < 0 := by
  unfold sign
  split_ifs with h h'
  · simpa using h.le
  · simp [h']
  · simpa using h'

theorem sign_eq_eq {x : ℚ} : sign x = .eq ↔ x = 0 := by
  unfold sign
  split_ifs with h h'
  · simpa using h.ne'
  · simpa using h'.ne
  · simpa using le_antisymm (not_lt.mp h) (not_lt.mp h')

theorem sum_eq (xs : List ℚ) : sum xs = xs.sum := by
  rw [sum, List.sum_eq_foldl, neg_zero]

theorem least_eq_min (a b : ℚ) : least a b = min a b := by
  unfold least
  split_ifs with h h'
  · exact (min_eq_left h.le).symm
  · exact (min_eq_right (not_lt.mp h)).symm
  · exact absurd (beq_self_eq_true b) h'

theorem foldl_least (xs : List ℚ) (a : ℚ) :
    xs.foldl least a ∈ a :: xs ∧ ∀ x ∈ a :: xs, xs.foldl least a ≤ x := by
  induction xs using List.reverseRecOn with
  | nil => simp
  | append_singleton xs y ih =>
    obtain ⟨hmem, hle⟩ := ih
    rw [List.foldl_append, List.foldl_cons, List.foldl_nil, least_eq_min, ← List.cons_append]
    constructor
    · rcases min_choice (xs.foldl least a) y with h | h
      · rw [h]
        exact List.mem_append_left _ hmem
      · rw [h]
        exact List.mem_append_right _ (List.mem_singleton_self y)
    · intro x hx
      rcases List.mem_append.mp hx with hx | hx
      · exact (min_le_left _ _).trans (hle x hx)
      · rw [List.mem_singleton.mp hx]
        exact min_le_right _ _

theorem least?_eq_some {xs : List ℚ} {a : ℚ} (h : least? xs = some a) :
    a ∈ xs ∧ ∀ x ∈ xs, a ≤ x := by
  cases xs with
  | nil => simp [least?] at h
  | cons y xs =>
    obtain rfl := Option.some.inj h
    exact foldl_least xs y

theorem least?_eq_none {xs : List ℚ} : least? xs = none ↔ xs = [] := by
  cases xs <;> simp [least?]

theorem precedes_iff {a b : ℚ} : precedes a b = true ↔ a < b := by
  rw [precedes, Bool.or_eq_true, Bool.and_eq_true, beq_iff_eq, decide_eq_true_iff,
    decide_eq_true_iff, or_iff_left]
  rintro ⟨rfl, hlt⟩
  exact lt_irrefl _ hlt

theorem insertAscending_eq (a : ℚ) (xs : List ℚ) :
    insertAscending a xs = xs.orderedInsert (· ≤ ·) a := by
  induction xs with
  | nil => rfl
  | cons x xs ih =>
    rw [insertAscending, List.orderedInsert_cons, ih]
    by_cases h : x < a
    · rw [if_pos (precedes_iff.mpr h), if_neg (not_le.mpr h)]
    · rw [if_neg (mt precedes_iff.mp h), if_pos (not_lt.mp h)]

/-- Putting numbers in order one by one sorts the multiset of them. -/
theorem ascending_eq_sort (xs : List ℚ) :
    ascending xs = (xs : Multiset ℚ).sort (· ≤ ·) := by
  rw [Multiset.coe_sort, List.mergeSort_eq_insertionSort, ascending, List.insertionSort]
  exact congrArg (fun f => xs.foldr f []) (funext₂ insertAscending_eq)

end Scalar

def integers : Subring ℚ := (Int.castRingHom ℚ).range

theorem nonpos_of_lt_one {x : ℚ} (hx : x ∈ integers) (h : x < 1) : x ≤ 0 := by
  obtain ⟨k, rfl⟩ := hx
  rw [eq_intCast] at h ⊢
  norm_cast at h ⊢
  omega

theorem eq_zero_of_abs_lt_one {x : ℚ} (hx : x ∈ integers) (h : |x| < 1) : x = 0 := by
  obtain ⟨hneg, hpos⟩ := abs_lt.mp h
  refine le_antisymm (nonpos_of_lt_one hx hpos) (neg_nonpos.mp ?_)
  exact nonpos_of_lt_one (integers.neg_mem hx) (by linarith)

section FirstBest

variable {α κ : Type} [LinearOrder κ] {beats : α → α → Bool} (key : α → κ)

theorem foldl_firstBest (hb : ∀ x y, beats x y = true ↔ key x < key y) (xs : List α) (b : α) :
    ∃ l a r, b :: xs = l ++ a :: r ∧
      xs.foldl (fun best y => if beats y best then y else best) b = a ∧
      (∀ x ∈ l, key a < key x) ∧ ∀ x ∈ r, key a ≤ key x := by
  -- from the right: the last element meets the best of all before it
  induction xs using List.reverseRecOn with
  | nil => exact ⟨[], b, [], rfl, rfl, by simp, by simp⟩
  | append_singleton xs y ih =>
    obtain ⟨l, a, r, hxs, ha, hl, hr⟩ := ih
    simp only [List.foldl_append, List.foldl_cons, List.foldl_nil, ha]
    by_cases h : beats y a = true
    · have hlt := (hb y a).mp h
      refine ⟨b :: xs, y, [], rfl, by simp [h], ?_, by simp⟩
      intro x hx
      rw [hxs, List.mem_append, List.mem_cons] at hx
      rcases hx with hx | rfl | hx
      · exact hlt.trans (hl x hx)
      · exact hlt
      · exact hlt.trans_le (hr x hx)
    · refine ⟨l, a, r ++ [y], by rw [← List.cons_append, hxs]; simp, by simp [h], hl, ?_⟩
      intro x hx
      rcases List.mem_append.mp hx with hx | hx
      · exact hr x hx
      · rw [List.mem_singleton.mp hx]
        exact not_lt.mp (mt (hb y a).mpr h)

/-- What is found is smaller than all before it and at most all after it. -/
theorem firstBest?_eq_some (hb : ∀ x y, beats x y = true ↔ key x < key y) {xs : List α} {a : α}
    (h : firstBest? beats xs = some a) :
    ∃ l r, xs = l ++ a :: r ∧ (∀ x ∈ l, key a < key x) ∧ ∀ x ∈ r, key a ≤ key x := by
  cases xs with
  | nil => simp [firstBest?] at h
  | cons b xs =>
    obtain ⟨l, c, r, hxs, hc, hl, hr⟩ := foldl_firstBest key hb xs b
    obtain rfl : c = a := hc.symm.trans (Option.some.inj h)
    exact ⟨l, r, hxs, hl, hr⟩

theorem le_of_firstBest? (hb : ∀ x y, beats x y = true ↔ key x < key y) {xs : List α} {a x : α}
    (h : firstBest? beats xs = some a) (hx : x ∈ xs) : key a ≤ key x := by
  obtain ⟨l, r, rfl, hl, hr⟩ := firstBest?_eq_some key hb h
  rw [List.mem_append, List.mem_cons] at hx
  rcases hx with hx | rfl | hx
  · exact (hl x hx).le
  · exact le_rfl
  · exact hr x hx

/-- In a list in order of place, what is found comes first among the elements with the least key. -/
theorem toLex_le_of_firstBest? {ι : Type} [Preorder ι] {place : α → ι}
    (hb : ∀ x y, beats x y = true ↔ key x < key y) {xs : List α}
    (hxs : xs.Pairwise fun x y => place x < place y) {a x : α}
    (h : firstBest? beats xs = some a) (hx : x ∈ xs) :
    toLex (key a, place a) ≤ toLex (key x, place x) := by
  obtain ⟨before, after, rfl, hbefore, hafter⟩ := firstBest?_eq_some key hb h
  rw [Prod.Lex.toLex_le_toLex]
  rcases List.mem_append.mp hx with hx | hx
  · exact .inl (hbefore x hx)
  · rcases List.mem_cons.mp hx with rfl | hx
    · exact .inr ⟨rfl, le_rfl⟩
    · refine (hafter x hx).lt_or_eq.imp_right fun heq => ⟨heq, ?_⟩
      exact (List.rel_of_pairwise_cons (List.pairwise_append.mp hxs).2.1 hx).le

/-- A search whose comparisons a map keeps finds the image of what it found. -/
theorem firstBest?_map {β : Type} {beats : α → α → Bool} {beats' : β → β → Bool} (f : α → β)
    {xs : List α} (h : ∀ x ∈ xs, ∀ y ∈ xs, beats' (f x) (f y) = beats x y) :
    firstBest? beats' (xs.map f) = (firstBest? beats xs).map f := by
  cases xs with
  | nil => rfl
  | cons x xs =>
    have hfold (ys : List α) (b : α) (hmem : ∀ z ∈ b :: ys, z ∈ x :: xs) :
        (ys.map f).foldl (fun best y => if beats' y best then y else best) (f b) =
          f (ys.foldl (fun best y => if beats y best then y else best) b) := by
      induction ys generalizing b with
      | nil => rfl
      | cons y ys ih =>
        obtain ⟨hb, hy, hys⟩ := by simpa only [List.forall_mem_cons] using hmem
        rw [List.map_cons, List.foldl_cons, List.foldl_cons, h y hy b hb, ← apply_ite f]
        apply ih
        rw [List.forall_mem_cons]
        refine ⟨?_, hys⟩
        split_ifs
        · exact hy
        · exact hb
    exact congrArg some (hfold xs x fun z hz => hz)

end FirstBest

end Optima
