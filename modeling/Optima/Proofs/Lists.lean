import Mathlib

namespace Optima

section Lookup

variable {α : Type} {xs : List α} {d : α} {i j : ℕ}

/-- What holds of the elements of a list and of the default holds of every entry. -/
theorem getD_of_forall_mem {P : α → Prop} (h : ∀ x ∈ xs, P x) (hd : P d) (i : ℕ) :
    P (xs.getD i d) := by
  by_cases hi : i < xs.length
  · rw [List.getD_eq_getElem _ _ hi]
    exact h _ (List.getElem_mem hi)
  · rw [List.getD_eq_default _ _ (not_lt.mp hi)]
    exact hd

theorem forall_mem_iff_getD {P : α → Prop} (d : α) :
    (∀ x ∈ xs, P x) ↔ ∀ i < xs.length, P (xs.getD i d) := by
  constructor
  · intro h i hi
    rw [List.getD_eq_getElem _ _ hi]
    exact h _ (List.getElem_mem hi)
  · intro h x hx
    obtain ⟨i, hi, rfl⟩ := List.getElem_of_mem hx
    rw [← List.getD_eq_getElem _ d hi]
    exact h i hi

theorem entry_of_forall_mem {P : α → Prop} {rows : List (List α)}
    (h : ∀ r ∈ rows, ∀ x ∈ r, P x) (hd : P d) (i j : ℕ) : P ((rows.getD i []).getD j d) := by
  apply getD_of_forall_mem _ hd
  exact getD_of_forall_mem h (fun x hx => absurd hx List.not_mem_nil) i

theorem getD_modify (hi : i < xs.length) (f : α → α) (d : α) (j : ℕ) :
    (xs.modify i f).getD j d = if j = i then f (xs.getD j d) else xs.getD j d := by
  rw [List.getD_eq_getElem?_getD, List.getD_eq_getElem?_getD, List.getElem?_modify]
  by_cases hij : j = i
  · subst hij
    simp [hi]
  · simp [hij, Ne.symm hij]

theorem getD_set (hi : i < xs.length) (x d : α) (j : ℕ) :
    (xs.set i x).getD j d = if j = i then x else xs.getD j d := by
  rw [List.set_eq_modify, getD_modify hi]

theorem findIdx?_congr {f g : α → Bool} (h : ∀ x ∈ xs, f x = g x) :
    xs.findIdx? f = xs.findIdx? g := by
  induction xs with
  | nil => rfl
  | cons x xs ih =>
    obtain ⟨hx, hxs⟩ := List.forall_mem_cons.mp h
    rw [List.findIdx?_cons, List.findIdx?_cons, hx, ih hxs]

/-- A search that looks at the elements alone finds nothing in their numbered list just when no
element is one. -/
theorem find?_zipIdx_eq_none (f : α → Bool) :
    xs.zipIdx.find? (fun a => f a.1) = none ↔ ∀ x ∈ xs, f x = false := by
  rw [List.find?_eq_none]
  constructor
  · intro h x hx
    obtain ⟨i, hi, rfl⟩ := List.getElem_of_mem hx
    exact Bool.not_eq_true _ ▸ h (xs[i], i)
      (List.mk_mem_zipIdx_iff_getElem?.mpr (List.getElem?_eq_getElem hi))
  · intro h a ha
    rw [h a.1 (List.fst_mem_of_mem_zipIdx ha)]
    exact Bool.false_ne_true

theorem length_filter_lt_of_imp {f g : α → Bool} {a : α} (h : ∀ b, g b = true → f b = true)
    (ha : a ∈ xs.filter f) (hg : g a = false) :
    (xs.filter g).length < (xs.filter f).length := by
  have hfilter : xs.filter g = (xs.filter f).filter g := by
    rw [List.filter_filter]
    apply List.filter_congr
    intro b _
    cases hb : g b with
    | true => simp [h b hb]
    | false => simp
  rw [hfilter, List.length_filter_lt_length_iff_exists]
  exact ⟨a, ha, by simp [hg]⟩

end Lookup

section Spans

variable {α : Type} {p : α → Bool} {xs ys : List α}

theorem takeWhile_append_of_stop (hxs : ∀ a ∈ xs, p a = true) (hys : ∀ a ∈ ys.head?, p a = false) :
    (xs ++ ys).takeWhile p = xs := by
  rw [List.takeWhile_append_of_pos hxs]
  cases ys with
  | nil => exact List.append_nil xs
  | cons a ys => rw [List.takeWhile_cons, hys a rfl, if_neg Bool.false_ne_true, List.append_nil]

theorem dropWhile_append_of_stop (hxs : ∀ a ∈ xs, p a = true) (hys : ∀ a ∈ ys.head?, p a = false) :
    (xs ++ ys).dropWhile p = ys := by
  rw [List.dropWhile_append_of_pos hxs]
  cases ys with
  | nil => rfl
  | cons a ys => rw [List.dropWhile_cons, hys a rfl, if_neg Bool.false_ne_true]

theorem head?_dropWhile_eq_false (p : α → Bool) (xs : List α) :
    ∀ a ∈ (xs.dropWhile p).head?, p a = false := by
  intro a ha
  have h := List.head?_dropWhile_not p xs
  rw [Option.mem_def.mp ha] at h
  exact h

end Spans

section Pairs

variable {α β γ ε : Type}

theorem mapM_eq_ok_iff {f : α → Except ε β} {xs : List α} {ys : List β} :
    xs.mapM f = .ok ys ↔ List.Forall₂ (fun x y => f x = .ok y) xs ys := by
  induction xs generalizing ys with
  | nil => simp [pure, Except.pure, eq_comm]
  | cons x xs ih =>
    rw [List.mapM_cons, List.forall₂_cons_left_iff]
    cases hx : f x with
    | error e => simp [bind, Except.bind]
    | ok y =>
      cases hxs : xs.mapM f with
      | error e =>
        simp only [hxs, ← ih, bind, Except.bind]
        simp
      | ok ys' =>
        simp only [hxs, ← ih, bind, Except.bind, pure, Except.pure]
        simp [eq_comm]

/-- Renaming the errors of a function renames those of its traversals. -/
theorem mapM_mapError {ε' : Type} (rename : ε → ε') (f : α → Except ε β) (xs : List α) :
    xs.mapM (fun x => (f x).mapError rename) = (xs.mapM f).mapError rename := by
  induction xs with
  | nil => rfl
  | cons x xs ih =>
    rw [List.mapM_cons, List.mapM_cons, ih]
    cases f x with
    | error e => rfl
    | ok y => cases xs.mapM f <;> rfl

theorem forall₂_exists_iff {R : α → β → Prop} {S : β → γ → Prop} {as : List α}
    {cs : List γ} : List.Forall₂ (fun a c => ∃ b, R a b ∧ S b c) as cs ↔
      ∃ bs, List.Forall₂ R as bs ∧ List.Forall₂ S bs cs := by
  constructor
  · intro h
    induction h with
    | nil => exact ⟨[], .nil, .nil⟩
    | cons hac _ ih =>
      obtain ⟨b, hab, hbc⟩ := hac
      obtain ⟨bs, has, hbs⟩ := ih
      exact ⟨b :: bs, .cons hab has, .cons hbc hbs⟩
  · rintro ⟨bs, has, hbs⟩
    induction has generalizing cs with
    | nil =>
      cases hbs
      exact .nil
    | cons hab _ ih =>
      cases hbs with
      | cons hbc hbs => exact .cons ⟨_, hab, hbc⟩ (ih hbs)

end Pairs

section Sums

variable {α β M : Type} [AddCommMonoid M]

theorem sum_range_eq_list (f : ℕ → M) (n : ℕ) :
    ∑ i ∈ Finset.range n, f i = ((List.range n).map f).sum := rfl

theorem sum_map_eq_range (f : α → M) (xs : List α) (d : α) :
    (xs.map f).sum = ∑ i ∈ Finset.range xs.length, f (xs.getD i d) := by
  rw [sum_range_eq_list]
  congr 1
  apply List.ext_getElem (by simp)
  intro i hi _
  rw [List.length_map] at hi
  simp [hi]

theorem sum_eq_range (xs : List M) :
    xs.sum = ∑ i ∈ Finset.range xs.length, xs.getD i 0 := by
  simpa using sum_map_eq_range id xs 0

theorem sum_zipWith_eq_range (f : α → β → M) {as : List α} {bs : List β} {n : ℕ}
    (ha : as.length = n) (hb : bs.length = n) (a : α) (b : β) :
    (as.zipWith f bs).sum = ∑ i ∈ Finset.range n, f (as.getD i a) (bs.getD i b) := by
  rw [sum_range_eq_list]
  congr 1
  apply List.ext_getElem (by simp [ha, hb])
  intro i hi _
  rw [List.length_zipWith] at hi
  simp [show i < as.length by omega, show i < bs.length by omega]

end Sums

end Optima
