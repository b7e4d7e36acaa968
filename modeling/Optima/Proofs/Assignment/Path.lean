import Mathlib
import Optima.Assignment.Step
import Optima.Proofs.Assignment.Marks

namespace Optima.Assignment

def Marks.SinglePrimes (m : Marks) : Prop :=
  ∀ i j l, m.get ⟨i, j⟩ = some .primed → m.get ⟨i, l⟩ = some .primed → j = l

/-- The way from a column to one without a star. -/
inductive Leads (m : Marks) : ℕ → List Cell → Prop where
  | free {j : ℕ} (h : ∀ i, m.get ⟨i, j⟩ ≠ some .starred) : Leads m j []
  | step {i j l : ℕ} {path : List Cell} (hs : m.get ⟨i, j⟩ = some .starred)
      (hp : m.get ⟨i, l⟩ = some .primed) (h : Leads m l path) :
      Leads m j (⟨i, j⟩ :: ⟨i, l⟩ :: path)

namespace Leads

variable {m m' : Marks} {n i j : ℕ} {c d : Cell} {path other : List Cell}

theorem mono (h : Leads m j path)
    (hs : ∀ c, m'.get c = some .starred ↔ m.get c = some .starred)
    (hp : ∀ c, m.get c = some .primed → m'.get c = some .primed) : Leads m' j path := by
  induction h with
  | free h => exact .free fun i => mt (hs _).mp (h i)
  | step hstar hprime _ ih => exact .step ((hs _).mpr hstar) (hp _ hprime) ih

theorem unique (hm : m.Independent) (hp : m.SinglePrimes) (h : Leads m j path)
    (h' : Leads m j other) : path = other := by
  induction h generalizing other with
  | free hfree =>
    cases h' with
    | free => rfl
    | step hs => exact absurd hs (hfree _)
  | step hs hprime _ ih =>
    cases h' with
    | free hfree => exact absurd hs (hfree _)
    | step hs' hprime' h' =>
      obtain rfl := hm.column _ _ _ hs hs'
      obtain rfl := hp _ _ _ hprime hprime'
      rw [ih h']

theorem of_mem (h : Leads m j path) (hc : c ∈ path) :
    (m.get c = some .starred ∧ ∃ q, Leads m c.column q ∧ q.length ≤ path.length) ∨
      m.get c = some .primed ∧ ∃ q, Leads m c.column q ∧ q.length < path.length := by
  induction h with
  | free => exact absurd hc List.not_mem_nil
  | @step i j l path hs hp h ih =>
    have hlength : path.length < (⟨i, j⟩ :: ⟨i, l⟩ :: path : List Cell).length :=
      Nat.lt_add_of_pos_right Nat.two_pos
    rw [List.mem_cons, List.mem_cons] at hc
    rcases hc with rfl | rfl | hc
    · exact .inl ⟨hs, _, .step hs hp h, le_rfl⟩
    · exact .inr ⟨hp, path, h, hlength⟩
    · rcases ih hc with ⟨hmark, q, hq, hle⟩ | ⟨hmark, q, hq, hlt⟩
      · exact .inl ⟨hmark, q, hq, hle.trans hlength.le⟩
      · exact .inr ⟨hmark, q, hq, hlt.trans hlength⟩

theorem get_ne_none (h : Leads m j path) (hc : c ∈ path) : m.get c ≠ none := by
  rcases h.of_mem hc with ⟨hmark, -⟩ | ⟨hmark, -⟩ <;> simp [hmark]

theorem star_mem (hm : m.Independent) (h : Leads m j path) (hs : m.get ⟨i, j⟩ = some .starred) :
    ⟨i, j⟩ ∈ path := by
  cases h with
  | free hfree => exact absurd hs (hfree i)
  | step hs' =>
    obtain rfl := hm.column _ _ _ hs hs'
    exact List.mem_cons_self

theorem column_ne (hm : m.Independent) (hp : m.SinglePrimes) (h : Leads m j path) (hc : c ∈ path)
    (hprime : m.get c = some .primed) : c.column ≠ j := by
  rintro rfl
  rcases h.of_mem hc with ⟨hstar, -⟩ | ⟨-, q, hq, hlt⟩
  · simp [hprime] at hstar
  · exact hlt.ne (congrArg List.length (hq.unique hm hp h))

theorem star_mem_of_prime (hm : m.Independent) (h : Leads m j path) (hc : c ∈ path)
    (hprime : m.get c = some .primed) (hs : m.get ⟨i, c.column⟩ = some .starred) :
    ⟨i, c.column⟩ ∈ path := by
  induction h with
  | free => exact absurd hc List.not_mem_nil
  | step hs' hp h ih =>
    rw [List.mem_cons, List.mem_cons] at hc
    rcases hc with rfl | rfl | hc
    · simp [hprime] at hs'
    · exact List.mem_cons_of_mem _ (List.mem_cons_of_mem _ (h.star_mem hm hs))
    · exact List.mem_cons_of_mem _ (List.mem_cons_of_mem _ (ih hc))

/-- In the row of every cell on the path there are a star and a prime on the path. -/
theorem exists_mark_in_row (h : Leads m j path) (hc : c ∈ path) (mark : Mark) :
    ∃ l, ⟨c.row, l⟩ ∈ path ∧ m.get ⟨c.row, l⟩ = some mark := by
  induction h with
  | free => exact absurd hc List.not_mem_nil
  | @step i j l path hs hp h ih =>
    have hrow : ∃ l', (⟨i, l'⟩ : Cell) ∈ (⟨i, j⟩ :: ⟨i, l⟩ :: path : List Cell) ∧
        m.get ⟨i, l'⟩ = some mark := by
      cases mark with
      | starred => exact ⟨j, List.mem_cons_self, hs⟩
      | primed => exact ⟨l, List.mem_cons_of_mem _ List.mem_cons_self, hp⟩
    rw [List.mem_cons, List.mem_cons] at hc
    rcases hc with rfl | rfl | hc
    · exact hrow
    · exact hrow
    · obtain ⟨k, hmem, hk⟩ := ih hc
      exact ⟨k, List.mem_cons_of_mem _ (List.mem_cons_of_mem _ hmem), hk⟩

/-- A star on the path is in the first column or in that of a prime on the path. -/
theorem exists_prime_in_column (h : Leads m j path) (hc : c ∈ path)
    (hstar : m.get c = some .starred) : c.column = j ∨
      ∃ i, ⟨i, c.column⟩ ∈ path ∧ m.get ⟨i, c.column⟩ = some .primed := by
  induction h with
  | free => exact absurd hc List.not_mem_nil
  | @step i j l path hs hp h ih =>
    rw [List.mem_cons, List.mem_cons] at hc
    rcases hc with rfl | rfl | hc
    · exact .inl rfl
    · simp [hstar] at hp
    · right
      rcases ih hc with hcolumn | ⟨k, hmem, hk⟩
      · exact ⟨i, hcolumn ▸ List.mem_cons_of_mem _ List.mem_cons_self, hcolumn ▸ hp⟩
      · exact ⟨k, List.mem_cons_of_mem _ (List.mem_cons_of_mem _ hmem), hk⟩

/-- Stars and primes take turns. -/
theorem get_of_getElem? (h : Leads m j path) {k : ℕ} (hk : path[k]? = some c) :
    m.get c = some (if k % 2 = 0 then .starred else .primed) := by
  induction h generalizing k with
  | free => simp at hk
  | @step i j l path hs hp h ih =>
    match k with
    | 0 =>
      obtain rfl := Option.some.inj hk
      exact hs
    | 1 =>
      obtain rfl := Option.some.inj hk
      exact hp
    | k + 2 =>
      rw [Nat.add_mod_right]
      exact ih hk

theorem free_last (h : Leads m j path) {d : Cell} (hd : d.column = j) (i : ℕ) :
    m.get ⟨i, ((d :: path).getLast (List.cons_ne_nil d path)).column⟩ ≠ some .starred := by
  induction h generalizing d with
  | free hfree => exact hd ▸ hfree i
  | step hs hp h ih =>
    rw [List.getLast_cons_cons, List.getLast_cons_cons]
    exact ih rfl

theorem eq_of_column_eq (hm : m.Independent) (hp : m.SinglePrimes) (h : Leads m j path)
    (hc : c ∈ path) (hd : d ∈ path) (hcp : m.get c = some .primed) (hdp : m.get d = some .primed)
    (hcd : c.column = d.column) : c = d := by
  induction h with
  | free => exact absurd hc List.not_mem_nil
  | step hs _ h ih =>
    rw [List.mem_cons, List.mem_cons] at hc hd
    rcases hc with rfl | rfl | hc
    · simp [hcp] at hs
    · rcases hd with rfl | rfl | hd
      · simp [hdp] at hs
      · rfl
      · exact absurd hcd.symm (h.column_ne hm hp hd hdp)
    · rcases hd with rfl | rfl | hd
      · simp [hdp] at hs
      · exact absurd hcd (h.column_ne hm hp hc hcp)
      · exact ih hc hd

theorem nodup (hm : m.Independent) (hp : m.SinglePrimes) (h : Leads m j path) : path.Nodup := by
  induction h with
  | free => exact List.nodup_nil
  | @step i j l path hs hprime h ih =>
    have hne : (⟨i, j⟩ : Cell) ≠ ⟨i, l⟩ := fun heq => by simp [heq, hprime] at hs
    have hstar : (⟨i, j⟩ : Cell) ∉ path := by
      intro hmem
      -- met again, the cell would lead on by a shorter path than the one from its column
      rcases h.of_mem hmem with ⟨-, q, hq, hle⟩ | ⟨hmark, -⟩
      · have heq := congrArg List.length (hq.unique hm hp (.step hs hprime h))
        rw [List.length_cons, List.length_cons] at heq
        omega
      · simp [hs] at hmark
    refine List.nodup_cons.mpr ⟨?_, List.nodup_cons.mpr ⟨?_, ih⟩⟩
    · rw [List.mem_cons]
      exact not_or.mpr ⟨hne, hstar⟩
    · intro hmem
      exact h.column_ne hm hp hmem hprime rfl

theorem length_eq (h : Leads m j path) :
    path.length = 2 * (path.filter fun c => m.get c = some .starred).length := by
  induction h with
  | free => rfl
  | step hs hp _ ih =>
    rw [List.filter_cons_of_pos (by simpa using hs), List.filter_cons_of_neg (by simp [hp]),
      List.length_cons, List.length_cons, List.length_cons, ih]
    ring

theorem length_le (hm : m.Independent) (hp : m.SinglePrimes) (hn : m.Square n)
    (h : Leads m j path) : path.length ≤ 2 * n := by
  rw [h.length_eq]
  apply Nat.mul_le_mul_left
  have hrows : ((path.filter fun c => m.get c = some .starred).map Cell.row).Nodup := by
    apply ((h.nodup hm hp).filter _).map_on
    intro c hc d hd hcd
    have hc := of_decide_eq_true (List.mem_filter.mp hc).2
    have hd := of_decide_eq_true (List.mem_filter.mp hd).2
    obtain ⟨i, l⟩ := c
    obtain ⟨k, l'⟩ := d
    obtain rfl : i = k := hcd
    rw [hm.row _ _ _ hc hd]
  have hsubset : ((path.filter fun c => m.get c = some .starred).map Cell.row) ⊆ List.range n := by
    intro i hi
    obtain ⟨c, hc, rfl⟩ := List.mem_map.mp hi
    have hc := of_decide_eq_true (List.mem_filter.mp hc).2
    exact List.mem_range.mpr (hn.lt_of_get hc).1
  simpa using (List.subperm_of_subset hrows hsubset).length_le

/-- The search for the path finds it. -/
theorem alternating_eq (hm : m.Independent) (hp : m.SinglePrimes) (h : Leads m j path) {k : ℕ}
    (hk : path.length < 2 * k) : alternating m k j = path := by
  induction h generalizing k with
  | @free j hfree =>
    obtain ⟨k, rfl⟩ := Nat.exists_eq_add_of_lt (Nat.pos_of_mul_pos_left hk)
    rw [Nat.zero_add, alternating, Marks.inColumn?_eq_none_iff.mpr hfree]
  | @step i j l path hs hprime h ih =>
    rw [List.length_cons, List.length_cons] at hk
    obtain ⟨k, rfl⟩ : ∃ k', k = k' + 1 := ⟨k - 1, by omega⟩
    rw [alternating]
    cases hcol : m.inColumn? .starred j with
    | none => exact absurd hs (Marks.inColumn?_eq_none hcol i)
    | some i' =>
      -- the search can only meet the star and the prime of the path
      obtain rfl := hm.column _ _ _ (Marks.inColumn?_eq_some hcol) hs
      cases hrow : m.inRow? .primed i' with
      | none => exact absurd hprime (Marks.inRow?_eq_none hrow l)
      | some l' =>
        obtain rfl := hp _ _ _ (Marks.inRow?_eq_some hrow) hprime
        simp only [hrow]
        rw [ih (k := k) (by omega)]

end Leads

section Flip

variable {m : Marks} {n : ℕ} {c d : Cell} {path : List Cell}

/-- The marks after a path is flipped that starts at a prime in a row without a star. -/
def Marks.augment (m : Marks) (path : List Cell) : Marks := (path.foldl flip m).erasePrimes

/-- A path that can be flipped: a prime without a star in its row, and the way from its column. -/
structure Augmenting (m : Marks) (c : Cell) (path : List Cell) : Prop where
  independent : m.Independent
  singlePrimes : m.SinglePrimes
  primed : m.get c = some .primed
  free : ∀ j, m.get ⟨c.row, j⟩ ≠ some .starred
  leads : Leads m c.column path

namespace Augmenting

theorem row_ne (h : Augmenting m c path) (hd : d ∈ path) : d.row ≠ c.row := by
  intro hrow
  obtain ⟨l, -, hl⟩ := h.leads.exists_mark_in_row hd .starred
  exact h.free l (hrow ▸ hl)

theorem nodup (h : Augmenting m c path) : (c :: path).Nodup :=
  List.nodup_cons.mpr ⟨fun hc => h.row_ne hc rfl, h.leads.nodup h.independent h.singlePrimes⟩

theorem get_ne_none (h : Augmenting m c path) (hd : d ∈ c :: path) : m.get d ≠ none := by
  rcases List.mem_cons.mp hd with rfl | hd
  · simp [h.primed]
  · exact h.leads.get_ne_none hd

theorem square (h : Augmenting m c path) (hn : m.Square n) : (m.augment (c :: path)).Square n := by
  refine (hn.foldl_flip h.nodup fun d hd => ?_).1.erasePrimes
  obtain ⟨k, hk⟩ := Option.ne_none_iff_exists'.mp (h.get_ne_none hd)
  exact hn.lt_of_get hk

/-- The path changes its primes to stars and its stars to nothing. No other prime remains. -/
theorem get_augment (h : Augmenting m c path) (hn : m.Square n) (d : Cell) :
    (m.augment (c :: path)).get d = if d ∈ c :: path then
        if m.get d = some .starred then none else some .starred
      else if m.get d = some .primed then none else m.get d := by
  have hflip := (hn.foldl_flip h.nodup fun e he => by
    obtain ⟨k, hk⟩ := Option.ne_none_iff_exists'.mp (h.get_ne_none he)
    exact hn.lt_of_get hk).2 d
  rw [Marks.augment, Marks.get_erasePrimes, hflip]
  split_ifs <;> simp_all

theorem get_ne_primed (h : Augmenting m c path) (hn : m.Square n) (d : Cell) :
    (m.augment (c :: path)).get d ≠ some .primed := by
  rw [h.get_augment hn]
  split_ifs with h1 h2 h3
  · simp
  · simp
  · simp
  · exact h3

/-- The stars of the flipped path: its primes, and the stars that are not on it. -/
theorem starred_iff (h : Augmenting m c path) (hn : m.Square n) (d : Cell) :
    (m.augment (c :: path)).get d = some .starred ↔
      (d ∈ c :: path ∧ m.get d = some .primed) ∨ d ∉ c :: path ∧ m.get d = some .starred := by
  rw [h.get_augment hn]
  by_cases hd : d ∈ c :: path
  · obtain ⟨k, hk⟩ := Option.ne_none_iff_exists'.mp (h.get_ne_none hd)
    cases k <;> simp [hd, hk]
  · by_cases hp : m.get d = some .primed
    · simp [hd, hp]
    · simp [hd, hp]

theorem star_mem (h : Augmenting m c path) (hd : d ∈ c :: path) (hprime : m.get d = some .primed)
    {i : ℕ} (hs : m.get ⟨i, d.column⟩ = some .starred) : ⟨i, d.column⟩ ∈ c :: path := by
  rcases List.mem_cons.mp hd with rfl | hd
  · exact List.mem_cons_of_mem _ (h.leads.star_mem h.independent hs)
  · exact List.mem_cons_of_mem _ (h.leads.star_mem_of_prime h.independent hd hprime hs)

theorem star_mem_of_row (h : Augmenting m c path) (hd : d ∈ c :: path) {j : ℕ}
    (hs : m.get ⟨d.row, j⟩ = some .starred) : ⟨d.row, j⟩ ∈ c :: path := by
  rcases List.mem_cons.mp hd with rfl | hd
  · exact absurd hs (h.free j)
  · obtain ⟨l, hmem, hl⟩ := h.leads.exists_mark_in_row hd .starred
    rw [h.independent.row _ _ _ hs hl]
    exact List.mem_cons_of_mem _ hmem

theorem eq_of_column_eq (h : Augmenting m c path) {e : Cell} (hd : d ∈ c :: path)
    (he : e ∈ c :: path) (hdp : m.get d = some .primed) (hep : m.get e = some .primed)
    (hde : d.column = e.column) : d = e := by
  rcases List.mem_cons.mp hd with rfl | hd'
  · rcases List.mem_cons.mp he with rfl | he'
    · rfl
    · exact absurd hde.symm (h.leads.column_ne h.independent h.singlePrimes he' hep)
  · rcases List.mem_cons.mp he with rfl | he'
    · exact absurd hde (h.leads.column_ne h.independent h.singlePrimes hd' hdp)
    · exact h.leads.eq_of_column_eq h.independent h.singlePrimes hd' he' hdp hep hde

theorem independent_augment (h : Augmenting m c path) (hn : m.Square n) :
    (m.augment (c :: path)).Independent := by
  constructor
  · intro i j l hj hl
    rw [h.starred_iff hn] at hj hl
    -- a star of the flipped marks was a prime on the path or a star off it
    rcases hj with ⟨hjmem, hj⟩ | ⟨hjmem, hj⟩
    · rcases hl with ⟨-, hl⟩ | ⟨hlmem, hl⟩
      · exact h.singlePrimes _ _ _ hj hl
      · exact absurd (h.star_mem_of_row hjmem hl) hlmem
    · rcases hl with ⟨hlmem, -⟩ | ⟨-, hl⟩
      · exact absurd (h.star_mem_of_row hlmem hj) hjmem
      · exact h.independent.row _ _ _ hj hl
  · intro i l j hi hl
    rw [h.starred_iff hn] at hi hl
    rcases hi with ⟨himem, hi⟩ | ⟨himem, hi⟩
    · rcases hl with ⟨hlmem, hl⟩ | ⟨hlmem, hl⟩
      · exact congrArg Cell.row (h.eq_of_column_eq himem hlmem hi hl rfl)
      · exact absurd (h.star_mem himem hi hl) hlmem
    · rcases hl with ⟨hlmem, hl⟩ | ⟨-, hl⟩
      · exact absurd (h.star_mem hlmem hl hi) himem
      · exact h.independent.column _ _ _ hi hl

theorem star_of_notMem (h : Augmenting m c path) (hn : m.Square n) (hs : m.get d = some .starred)
    (hd : d ∉ path) : (m.augment (c :: path)).get d = some .starred := by
  refine (h.starred_iff hn d).mpr (.inr ⟨?_, hs⟩)
  rw [List.mem_cons, not_or]
  refine ⟨?_, hd⟩
  rintro rfl
  simp [h.primed] at hs

theorem exists_star_in_row (h : Augmenting m c path) (hn : m.Square n)
    (hs : m.get d = some .starred) :
    ∃ l, (m.augment (c :: path)).get ⟨d.row, l⟩ = some .starred := by
  by_cases hd : d ∈ path
  · obtain ⟨l, hmem, hl⟩ := h.leads.exists_mark_in_row hd .primed
    exact ⟨l, (h.starred_iff hn _).mpr (.inl ⟨List.mem_cons_of_mem c hmem, hl⟩)⟩
  · exact ⟨d.column, h.star_of_notMem hn hs hd⟩

theorem exists_star_in_column (h : Augmenting m c path) (hn : m.Square n)
    (hs : m.get d = some .starred) :
    ∃ i, (m.augment (c :: path)).get ⟨i, d.column⟩ = some .starred := by
  by_cases hd : d ∈ path
  · rcases h.leads.exists_prime_in_column hd hs with hcolumn | ⟨i, hmem, hi⟩
    · rw [hcolumn]
      exact ⟨c.row, (h.starred_iff hn c).mpr (.inl ⟨List.mem_cons_self, h.primed⟩)⟩
    · exact ⟨i, (h.starred_iff hn _).mpr (.inl ⟨List.mem_cons_of_mem c hmem, hi⟩)⟩
  · exact ⟨d.row, h.star_of_notMem hn hs hd⟩

end Augmenting

end Flip

end Optima.Assignment
