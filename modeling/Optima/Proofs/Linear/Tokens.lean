import Mathlib
import Optima.Linear.Expression
import Optima.Proofs.Lists

namespace Optima.Linear

section Characters

variable {c : Char}

theorem isSign_iff : isSign c = true ↔ c.toNat = 43 ∨ c.toNat = 45 := by
  rw [isSign, Bool.or_eq_true, beq_iff_eq, beq_iff_eq, ← Char.toNat_inj, ← Char.toNat_inj]
  rfl

theorem isDigit_iff : c.isDigit = true ↔ 48 ≤ c.toNat ∧ c.toNat ≤ 57 := Char.isDigit_iff_toNat

theorem isNumeric_iff : isNumeric c = true ↔ 48 ≤ c.toNat ∧ c.toNat ≤ 57 ∨ c.toNat = 46 := by
  rw [isNumeric, Bool.or_eq_true, isDigit_iff, beq_iff_eq, ← Char.toNat_inj]
  rfl

theorem isAlpha_iff : c.isAlpha = true ↔
    65 ≤ c.toNat ∧ c.toNat ≤ 90 ∨ 97 ≤ c.toNat ∧ c.toNat ≤ 122 := by
  simp [Char.isAlpha, Char.isUpper, Char.isLower, UInt32.le_iff_toNat_le]

theorem isNameChar_iff : isNameChar c = true ↔ 48 ≤ c.toNat ∧ c.toNat ≤ 57 ∨
    65 ≤ c.toNat ∧ c.toNat ≤ 90 ∨ 97 ≤ c.toNat ∧ c.toNat ≤ 122 ∨ c.toNat = 95 := by
  rw [isNameChar, Char.isAlphanum, Bool.or_eq_true, Bool.or_eq_true, isAlpha_iff, isDigit_iff,
    beq_iff_eq, ← Char.toNat_inj]
  change _ ∨ c.toNat = 95 ↔ _
  omega

theorem toLower_eq_self (h : c.toNat < 65 ∨ 90 < c.toNat) : c.toLower = c := by
  rw [Char.toLower, dif_neg]
  rintro ⟨hlower, hupper⟩
  have hlower : 65 ≤ c.toNat := UInt32.le_iff_toNat_le.mp hlower
  have hupper : c.toNat ≤ 90 := UInt32.le_iff_toNat_le.mp hupper
  omega

/-- Blanks among the ASCII characters are those of the usual white space. -/
theorem toNat_of_isBlank (h : Text.isBlank c = true) :
    9 ≤ c.toNat ∧ c.toNat ≤ 13 ∨ c.toNat = 32 ∨ 127 < c.toNat := by
  simp only [Text.isBlank, Bool.or_eq_true, Bool.and_eq_true, decide_eq_true_eq, beq_iff_eq] at h
  omega

theorem toNat_of_isLead (h : isLead c = true) : 9 ≤ c.toNat ∧ c.toNat ≤ 13 ∨ c.toNat = 32 ∨
    c.toNat = 43 ∨ c.toNat = 45 ∨ 127 < c.toNat := by
  rcases Bool.or_eq_true_iff.mp h with h | h
  · have := isSign_iff.mp h
    omega
  · have := toNat_of_isBlank h
    omega

theorem isLead_of_isBlank (h : Text.isBlank c = true) : isLead c = true :=
  Bool.or_eq_true_iff.mpr (.inr h)

theorem isNumeric_of_isLead (h : isLead c = true) : isNumeric c = false := by
  have := toNat_of_isLead h
  rw [← Bool.not_eq_true, isNumeric_iff]
  omega

theorem isNameChar_of_isLead (h : isLead c = true) : isNameChar c = false := by
  have := toNat_of_isLead h
  rw [← Bool.not_eq_true, isNameChar_iff]
  omega

theorem isNumeric_of_isAlpha (h : c.isAlpha = true) : isNumeric c = false := by
  have := isAlpha_iff.mp h
  rw [← Bool.not_eq_true, isNumeric_iff]
  omega

theorem isNameChar_of_isAlpha (h : c.isAlpha = true) : isNameChar c = true := by
  have := isAlpha_iff.mp h
  rw [isNameChar_iff]
  omega

theorem eq_false_of_rules_out {p q : Bool} (h : p = true → q = false) (hq : q = true) :
    p = false := by
  rw [← Bool.not_eq_true]
  intro hp
  rw [h hp] at hq
  exact Bool.false_ne_true hq

theorem isLead_of_isNumeric (h : isNumeric c = true) : isLead c = false :=
  eq_false_of_rules_out isNumeric_of_isLead h

theorem isLead_of_isAlpha (h : c.isAlpha = true) : isLead c = false :=
  eq_false_of_rules_out isNameChar_of_isLead (isNameChar_of_isAlpha h)

theorem isBlank_of_isAlpha (h : c.isAlpha = true) : Text.isBlank c = false :=
  eq_false_of_rules_out (fun hblank => isNameChar_of_isLead (isLead_of_isBlank hblank))
    (isNameChar_of_isAlpha h)

end Characters

section Numbers

open Decimal

variable {ds ws fs : List Char} {k : ℚ}

/-- The number of a term, which is one where none is written: digits with at most one point. -/
inductive Factor : List Char → ℚ → Prop
  | absent : Factor [] 1
  | whole {ds : List Char} (hne : ds ≠ []) (h : ∀ c ∈ ds, c.isDigit = true) :
      Factor ds (ofDigits 0 ds)
  | point {ws fs : List Char} (hne : ws ++ fs ≠ []) (h : ∀ c ∈ ws ++ fs, c.isDigit = true) :
      Factor (ws ++ '.' :: fs) ((ofDigits 0 (ws ++ fs) : ℚ) / 10 ^ fs.length)

theorem isNumeric_of_isDigit {c : Char} (h : c.isDigit = true) : isNumeric c = true :=
  Bool.or_eq_true_iff.mpr (.inl h)

theorem Factor.isNumeric_of_mem (h : Factor ds k) : ∀ c ∈ ds, isNumeric c = true := by
  intro c hc
  cases h with
  | absent => exact absurd hc List.not_mem_nil
  | whole _ h => exact isNumeric_of_isDigit (h c hc)
  | point _ h =>
    rcases List.mem_append.mp hc with hc | hc
    · exact isNumeric_of_isDigit (h c (List.mem_append_left _ hc))
    · rcases List.mem_cons.mp hc with rfl | hc
      · rfl
      · exact isNumeric_of_isDigit (h c (List.mem_append_right _ hc))

theorem Factor.eq_one (h : Factor [] k) : k = 1 := by
  generalize hds : ([] : List Char) = ds at h
  cases h with
  | absent => rfl
  | whole hne => exact absurd hds.symm hne
  | point => exact absurd hds (by simp)

theorem ofDigits_append (start : ℕ) (ws fs : List Char) :
    ofDigits start (ws ++ fs) = ofDigits (ofDigits start ws) fs := List.foldl_append

theorem toRat?_number (m n : ℕ) :
    Literal.toRat? (.number false m (0 - n)) = some ((m : ℚ) / 10 ^ n) := by
  rw [Literal.toRat?]
  rcases Nat.eq_zero_or_pos n with rfl | hn
  · simp
  · simp [hn]

theorem toLower_of_isNumeric {c : Char} (h : isNumeric c = true) : c.toLower = c := by
  have := isNumeric_iff.mp h
  exact toLower_eq_self (by omega)

theorem literal?_of_splitSign {negative : Bool} {cs : List Char}
    (hsplit : splitSign cs = (negative, ds)) (hne : ds ≠ []) (h : ∀ c ∈ ds, isNumeric c = true) :
    literal? cs = unsigned? negative ds := by
  obtain ⟨c, ds, rfl⟩ := List.exists_cons_of_ne_nil hne
  have hc := h c List.mem_cons_self
  -- the words start with letters
  have hword (w : List Char) (d : Char) (hd : isNumeric d = false) :
      String.ofList ((c :: ds).map Char.toLower) ≠ String.ofList (d :: w) := by
    intro heq
    have hhead := (List.cons.inj (String.ofList_inj.mp heq)).1
    rw [toLower_of_isNumeric hc] at hhead
    rw [hhead, hd] at hc
    exact Bool.false_ne_true hc
  rw [literal?, hsplit]
  dsimp only
  split
  · next heq => exact absurd heq (hword ['n', 'f'] 'i' rfl)
  · next heq => exact absurd heq (hword ['n', 'f', 'i', 'n', 'i', 't', 'y'] 'i' rfl)
  · next heq => exact absurd heq (hword ['a', 'n'] 'n' rfl)
  · rfl

theorem literal?_of_isNumeric (hne : ds ≠ []) (h : ∀ c ∈ ds, isNumeric c = true) :
    literal? ds = unsigned? false ds := by
  refine literal?_of_splitSign ?_ hne h
  obtain ⟨c, cs, rfl⟩ := List.exists_cons_of_ne_nil hne
  have hc := h c List.mem_cons_self
  unfold splitSign
  split
  · next heq =>
    rw [(List.cons.inj heq).1] at hc
    exact absurd hc (by decide)
  · next heq =>
    rw [(List.cons.inj heq).1] at hc
    exact absurd hc (by decide)
  · rfl

theorem unsigned?_whole (hne : ds ≠ []) (h : ∀ c ∈ ds, c.isDigit = true) :
    unsigned? false ds = some (.number false (ofDigits 0 ds) (0 - (0 : ℕ))) := by
  have hall : ds.takeWhile Char.isDigit = ds := List.takeWhile_eq_self_iff.mpr h
  have hnone : ds.dropWhile Char.isDigit = [] := List.dropWhile_eq_nil_iff.mpr h
  simp [unsigned?, hall, hnone, hne, exponent?, ofDigits]

theorem unsigned?_append_point (hws : ∀ c ∈ ws, c.isDigit = true) (rest : List Char) :
    unsigned? false (ws ++ '.' :: rest) =
      if ws ++ rest.takeWhile Char.isDigit = [] then none
      else (exponent? (rest.dropWhile Char.isDigit)).map fun e =>
        .number false (ofDigits 0 (ws ++ rest.takeWhile Char.isDigit))
          (e - (rest.takeWhile Char.isDigit).length) := by
  have hstop : ∀ c ∈ ('.' :: rest).head?, c.isDigit = false := by
    intro c hc
    obtain rfl := Option.some.inj hc
    rfl
  rw [unsigned?, takeWhile_append_of_stop hws hstop, dropWhile_append_of_stop hws hstop,
    ofDigits_append]
  simp only [Bool.and_eq_true, List.isEmpty_iff, List.append_eq_nil_iff]

theorem unsigned?_point (hne : ws ++ fs ≠ []) (h : ∀ c ∈ ws ++ fs, c.isDigit = true) :
    unsigned? false (ws ++ '.' :: fs) =
      some (.number false (ofDigits 0 (ws ++ fs)) (0 - fs.length)) := by
  have hws : ∀ c ∈ ws, c.isDigit = true := fun c hc => h c (List.mem_append_left _ hc)
  have hfs : ∀ c ∈ fs, c.isDigit = true := fun c hc => h c (List.mem_append_right _ hc)
  rw [unsigned?_append_point hws, List.takeWhile_eq_self_iff.mpr hfs,
    List.dropWhile_eq_nil_iff.mpr hfs, if_neg hne]
  rfl

theorem eq_nil_of_exponent? (h : ∀ c ∈ ds, isNumeric c = true) {e : ℤ}
    (he : exponent? ds = some e) : ds = [] := by
  cases ds with
  | nil => rfl
  | cons c cs =>
    have hc := h c List.mem_cons_self
    have hletter : ¬(c = 'e' ∨ c = 'E') := by
      rintro (rfl | rfl)
      · exact absurd hc (by decide)
      · exact absurd hc (by decide)
    rw [exponent?, if_neg hletter] at he
    exact absurd he (by simp)

/-- After the digits before the point, digits and points go on with a point, if at all. -/
theorem eq_point_of_isNumeric {c : Char} (h : isNumeric c = true) (hc : c.isDigit = false) :
    c = '.' := by
  rw [isNumeric, hc, Bool.false_or, beq_iff_eq] at h
  exact h

/-- What goes on after the point with digits and points, and is read, has no second point. -/
theorem isDigit_of_unsigned? (hws : ∀ c ∈ ws, c.isDigit = true)
    (hfs : ∀ c ∈ fs, isNumeric c = true) {l : Literal}
    (hl : unsigned? false (ws ++ '.' :: fs) = some l) :
    ws ++ fs ≠ [] ∧ ∀ c ∈ fs, c.isDigit = true := by
  rw [unsigned?_append_point hws] at hl
  split_ifs at hl with hempty
  obtain ⟨e, he, -⟩ := Option.map_eq_some_iff.mp hl
  have hrest : fs.dropWhile Char.isDigit = [] :=
    eq_nil_of_exponent? (fun c hc => hfs c (List.dropWhile_subset _ hc)) he
  have hdigits : ∀ c ∈ fs, c.isDigit = true := List.dropWhile_eq_nil_iff.mp hrest
  rw [List.takeWhile_eq_self_iff.mpr hdigits] at hempty
  exact ⟨hempty, hdigits⟩

theorem factor_of_unsigned? (h : ∀ c ∈ ds, isNumeric c = true) {l : Literal}
    (hl : unsigned? false ds = some l) (hk : l.toRat? = some k) : Factor ds k := by
  have hws : ∀ c ∈ ds.takeWhile Char.isDigit, c.isDigit = true := fun c hc =>
    List.mem_takeWhile_imp hc
  have hcut := List.takeWhile_append_dropWhile (p := Char.isDigit) (l := ds)
  have hstop := head?_dropWhile_eq_false Char.isDigit ds
  generalize ds.takeWhile Char.isDigit = ws at hws hcut
  cases hrest : ds.dropWhile Char.isDigit with
  | nil =>
    rw [hrest, List.append_nil] at hcut
    subst hcut
    have hne : ws ≠ [] := by
      rintro rfl
      simp [unsigned?] at hl
    rw [unsigned?_whole hne hws, Option.some.injEq] at hl
    rw [← hl, toRat?_number, Option.some.injEq] at hk
    rw [← hk, pow_zero, div_one]
    exact .whole hne hws
  | cons c fs =>
    rw [hrest] at hcut hstop
    subst hcut
    obtain rfl : c = '.' := eq_point_of_isNumeric (h c (by simp)) (hstop c rfl)
    have hnumeric : ∀ c ∈ fs, isNumeric c = true := fun c hc => h c (by simp [hc])
    obtain ⟨hne, hfs⟩ := isDigit_of_unsigned? hws hnumeric hl
    have hdigits : ∀ c ∈ ws ++ fs, c.isDigit = true := List.forall_mem_append.mpr ⟨hws, hfs⟩
    rw [unsigned?_point hne hdigits, Option.some.injEq] at hl
    rw [← hl, toRat?_number, Option.some.injEq] at hk
    rw [← hk]
    exact .point hne hdigits

/-- The number of a term is read as its value, and nothing else is read. -/
theorem coefficient_eq_ok_iff (h : ∀ c ∈ ds, isNumeric c = true) :
    (coefficient ds : Except ExpressionFault ℚ) = .ok k ↔ Factor ds k := by
  by_cases hne : ds = []
  · subst hne
    constructor
    · intro hk
      obtain rfl := Except.ok.inj hk
      exact .absent
    · intro hk
      rw [hk.eq_one]
      rfl
  · have hread : (Numeral.read? ds : Option ℚ) = (unsigned? false ds).bind Literal.toRat? := by
      rw [← literal?_of_isNumeric hne h]
      rfl
    have hiff : (coefficient ds : Except ExpressionFault ℚ) = .ok k ↔
        (Numeral.read? ds : Option ℚ) = some k := by
      rw [coefficient, List.isEmpty_eq_false_iff.mpr hne, if_neg Bool.false_ne_true]
      cases (Numeral.read? ds : Option ℚ) <;> simp
    rw [hiff, hread]
    constructor
    · intro hk
      obtain ⟨l, hl, hk⟩ := Option.bind_eq_some_iff.mp hk
      exact factor_of_unsigned? h hl hk
    · intro hk
      cases hk with
      | absent => exact absurd rfl hne
      | whole _ hdigits =>
        rw [unsigned?_whole hne hdigits, Option.bind_some, toRat?_number, pow_zero, div_one]
      | point hsome hdigits => rw [unsigned?_point hsome hdigits, Option.bind_some, toRat?_number]

end Numbers

section Names

variable {word rest : List Char}

/-- A letter, then letters, digits and underscores. -/
structure IsName (cs : List Char) : Prop where
  alpha : ∃ c ∈ cs.head?, c.isAlpha = true
  nameChar : ∀ c ∈ cs, isNameChar c = true

theorem name_append (h : IsName word) (hrest : ∀ c ∈ rest.head?, isNameChar c = false) :
    name (word ++ rest) = .ok (String.ofList word, rest) := by
  obtain ⟨⟨c, hc, halpha⟩, hword⟩ := h
  obtain ⟨cs, rfl⟩ := List.head?_eq_some_iff.mp hc
  have hcs : ∀ d ∈ cs, isNameChar d = true := fun d hd => hword d (List.mem_cons_of_mem c hd)
  rw [List.cons_append, name, if_pos halpha, takeWhile_append_of_stop hcs hrest,
    dropWhile_append_of_stop hcs hrest]

theorem name_eq_ok {cs : List Char} {n : String} (h : name cs = .ok (n, rest)) :
    ∃ word, IsName word ∧ cs = word ++ rest ∧ n = String.ofList word ∧
      ∀ c ∈ rest.head?, isNameChar c = false := by
  cases cs with
  | nil => exact absurd h (by simp [name])
  | cons c cs =>
    by_cases hc : c.isAlpha
    · rw [name, if_pos hc, Except.ok.injEq, Prod.mk.injEq] at h
      obtain ⟨rfl, rfl⟩ := h
      refine ⟨c :: cs.takeWhile isNameChar, ⟨⟨c, rfl, hc⟩, ?_⟩, ?_, rfl,
        head?_dropWhile_eq_false _ _⟩
      · intro d hd
        rcases List.mem_cons.mp hd with rfl | hd
        · exact isNameChar_of_isAlpha hc
        · exact List.mem_takeWhile_imp hd
      · rw [List.cons_append, List.takeWhile_append_dropWhile]
    · rw [name, if_neg hc] at h
      exact absurd h (by simp)

theorem IsName.head?_append (h : IsName word) (rest : List Char) :
    ∀ c ∈ (word ++ rest).head?, c.isAlpha = true := by
  intro c hc
  obtain ⟨⟨a, ha, halpha⟩, -⟩ := h
  rw [List.head?_append, Option.mem_def.mp ha] at hc
  obtain rfl := Option.some.inj hc
  exact halpha

end Names

end Optima.Linear
