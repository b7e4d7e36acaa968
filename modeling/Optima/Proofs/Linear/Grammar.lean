import Optima.Proofs.Linear.Feasible
import Optima.Proofs.Linear.Tokens

namespace Optima.Linear

section Terms

/-- A term as it is written: signs and blanks, a number that may be missing, blanks and a name. -/
structure TermText where
  lead : List Char
  digits : List Char
  gap : List Char
  name : List Char
  factor : ℚ
  lead_isLead : ∀ c ∈ lead, isLead c = true
  digits_factor : Factor digits factor
  gap_isBlank : ∀ c ∈ gap, Text.isBlank c = true
  name_isName : IsName name

namespace TermText

def text (t : TermText) : List Char := t.lead ++ t.digits ++ t.gap ++ t.name

def IsSigned (t : TermText) : Prop := ∃ c ∈ t.lead, isSign c = true

/-- The number, negated by every minus sign. -/
def coefficient (t : TermText) : ℚ := (-1) ^ t.lead.count '-' * t.factor

def key (t : TermText) : String := String.ofList t.name

end TermText

variable {lead digits gap word rest : List Char} {k : ℚ} {isFirst : Bool}

theorem neg_one_pow_mul (n : ℕ) (k : ℚ) : (if n % 2 = 0 then k else -k) = (-1) ^ n * k := by
  split_ifs with h
  · rw [(Nat.even_iff.mpr h).neg_one_pow, one_mul]
  · rw [(Nat.odd_iff.mpr (by omega)).neg_one_pow, neg_one_mul]

section Parts

variable {F : Type} [Scalar F] [Numeral F] {k : F}

theorem term_append (hlead : ∀ c ∈ lead, isLead c = true) (hsign : isFirst ∨ ∃ c ∈ lead, isSign c)
    (hnumeric : ∀ c ∈ digits, isNumeric c = true) (hdigits : coefficient digits = .ok k)
    (hgap : ∀ c ∈ gap, Text.isBlank c = true) (hnone : digits = [] → gap = [])
    (hword : IsName word) (hrest : ∀ c ∈ rest.head?, isNameChar c = false) :
    term isFirst (lead ++ (digits ++ (gap ++ (word ++ rest)))) =
      .ok ((String.ofList word, if lead.count '-' % 2 = 0 then k else -k), rest) := by
  -- every part ends where the next one starts
  have halpha := hword.head?_append rest
  have hstopGap : ∀ c ∈ (word ++ rest).head?, Text.isBlank c = false := fun c hc =>
    isBlank_of_isAlpha (halpha c hc)
  have hstopDigits : ∀ c ∈ (gap ++ (word ++ rest)).head?, isNumeric c = false := by
    intro c hc
    cases gap with
    | nil => exact isNumeric_of_isAlpha (halpha c hc)
    | cons g gap =>
      obtain rfl := Option.some.inj hc
      exact isNumeric_of_isLead (isLead_of_isBlank (hgap g List.mem_cons_self))
  have hstopLead : ∀ c ∈ (digits ++ (gap ++ (word ++ rest))).head?, isLead c = false := by
    intro c hc
    cases digits with
    | nil =>
      rw [hnone rfl] at hc
      exact isLead_of_isAlpha (halpha c hc)
    | cons d digits =>
      obtain rfl := Option.some.inj hc
      exact isLead_of_isNumeric (hnumeric d List.mem_cons_self)
  have hany : (!isFirst && !lead.any isSign) = false := by
    rw [Bool.and_eq_false_iff, Bool.not_eq_false', Bool.not_eq_false', List.any_eq_true]
    exact hsign
  simp only [term, takeWhile_append_of_stop hlead hstopLead,
    dropWhile_append_of_stop hlead hstopLead, takeWhile_append_of_stop hnumeric hstopDigits,
    dropWhile_append_of_stop hnumeric hstopDigits, hany, hdigits, Text.trimLeft,
    dropWhile_append_of_stop hgap hstopGap, name_append hword hrest]
  rfl

/-- What is read as a term is cut at the ends of its signs, its number and its name. -/
theorem parts_of_term_eq_ok {cs : List Char} {found : String × F}
    (h : term isFirst cs = .ok (found, rest)) :
    (isFirst ∨ ∃ c ∈ cs.takeWhile isLead, isSign c = true) ∧
      ∃ (k : F) (word : List Char),
        coefficient ((cs.dropWhile isLead).takeWhile isNumeric) = .ok k ∧ IsName word ∧
        Text.trimLeft ((cs.dropWhile isLead).dropWhile isNumeric) = word ++ rest ∧
        found = (String.ofList word,
          if (cs.takeWhile isLead).count '-' % 2 = 0 then k else -k) ∧
        ∀ c ∈ rest.head?, isNameChar c = false := by
  simp only [term, bind, Except.bind] at h
  split at h
  · exact absurd h (by simp)
  next hthrow =>
  split at h
  · exact absurd h (by simp)
  next k hk =>
  split at h
  · exact absurd h (by simp)
  next named hnamed =>
  obtain ⟨n, r⟩ := named
  obtain ⟨word, hword, hcut, rfl, hrest⟩ := name_eq_ok hnamed
  obtain ⟨rfl, rfl⟩ := Prod.mk.inj (Except.ok.inj h)
  rw [Bool.not_eq_true, Bool.and_eq_false_iff, Bool.not_eq_false', Bool.not_eq_false',
    List.any_eq_true] at hthrow
  exact ⟨hthrow, k, word, hk, hword, hcut, rfl, hrest⟩

end Parts

/-- A term is read as it is written, up to the first character that cannot belong to its name. -/
theorem term_text (t : TermText) (hsign : isFirst ∨ t.IsSigned)
    (hrest : ∀ c ∈ rest.head?, isNameChar c = false) :
    term isFirst (t.text ++ rest) = .ok ((t.key, t.coefficient), rest) := by
  obtain ⟨lead, digits, gap, word, k, hlead, hdigits, hgap, hword⟩ := t
  simp only [TermText.text, TermText.coefficient, TermText.key, TermText.IsSigned,
    List.append_assoc] at hsign ⊢
  have hnumeric := hdigits.isNumeric_of_mem
  have hcoefficient := (coefficient_eq_ok_iff hnumeric).mpr hdigits
  by_cases hnone : digits = []
  · -- without a number the blanks before the name belong to the signs
    subst hnone
    have hcount : lead.count '-' = (lead ++ gap).count '-' := by
      have hzero : gap.count '-' = 0 := by
        rw [List.count_eq_zero]
        intro hmem
        exact absurd (hgap _ hmem) (by decide)
      rw [List.count_append, hzero, add_zero]
    have hall : ∀ c ∈ lead ++ gap, isLead c = true := by
      intro c hc
      rcases List.mem_append.mp hc with hc | hc
      · exact hlead c hc
      · exact isLead_of_isBlank (hgap c hc)
    have hsome : isFirst ∨ ∃ c ∈ lead ++ gap, isSign c = true := hsign.imp_right
      fun ⟨c, hc, h⟩ => ⟨c, List.mem_append_left gap hc, h⟩
    have hnone : ∀ c ∈ ([] : List Char), Text.isBlank c = true := List.forall_mem_nil _
    have hread := term_append hall hsome hnumeric hcoefficient hnone (fun _ => rfl) hword hrest
    rw [List.append_assoc, neg_one_pow_mul] at hread
    rw [hcount]
    exact hread
  · rw [← neg_one_pow_mul]
    exact term_append hlead hsign hnumeric hcoefficient hgap (fun h => absurd h hnone) hword hrest

theorem term_eq_ok {cs : List Char} {found : String × ℚ}
    (h : term isFirst cs = .ok (found, rest)) :
    ∃ t : TermText, cs = t.text ++ rest ∧ found = (t.key, t.coefficient) ∧
      (isFirst ∨ t.IsSigned) ∧ ∀ c ∈ rest.head?, isNameChar c = false := by
  obtain ⟨hsign, k, word, hk, hword, hcut, rfl, hrest⟩ := parts_of_term_eq_ok h
  have hdigits : ∀ c ∈ (cs.dropWhile isLead).takeWhile isNumeric, isNumeric c = true := fun c hc =>
    List.mem_takeWhile_imp hc
  refine ⟨⟨cs.takeWhile isLead, (cs.dropWhile isLead).takeWhile isNumeric,
    ((cs.dropWhile isLead).dropWhile isNumeric).takeWhile Text.isBlank, word, k,
    fun c hc => List.mem_takeWhile_imp hc, (coefficient_eq_ok_iff hdigits).mp hk,
    fun c hc => List.mem_takeWhile_imp hc, hword⟩, ?_, ?_, hsign, hrest⟩
  · rw [Text.trimLeft] at hcut
    simp only [TermText.text, List.append_assoc, ← hcut, List.takeWhile_append_dropWhile]
  · exact congrArg _ (neg_one_pow_mul _ k)

end Terms

section Expressions

/-- The text of a nonempty sequence of terms, all but the first with a sign, and blanks at the
end. -/
structure Spells (cs : List Char) (ts : List TermText) : Prop where
  nonempty : ts ≠ []
  signed : ∀ t ∈ ts.tail, t.IsSigned
  text : ∃ blanks, (∀ c ∈ blanks, Text.isBlank c = true) ∧
    cs = (ts.map TermText.text).flatten ++ blanks

def addText (found : List (String × ℚ)) (t : TermText) : List (String × ℚ) :=
  addTerm found t.key t.coefficient

def collect (ts : List TermText) : List (String × ℚ) := ts.foldl addText []

section Names

section Single

variable {F : Type} [Scalar F] {found : List (String × F)} {n : String}

omit [Scalar F] in
theorem any_name_eq_contains : found.any (·.1 == n) = (found.map (·.1)).contains n := by
  rw [Bool.eq_iff_iff, List.contains_iff_mem]
  simp only [List.any_eq_true, beq_iff_eq, List.mem_map]

/-- The names after a term are those before it, with its name at the end if it is new. -/
theorem map_addTerm (found : List (String × F)) (n : String) (k : F) :
    (addTerm found n k).map (·.1) =
      if (found.map (·.1)).contains n then found.map (·.1) else found.map (·.1) ++ [n] := by
  rw [addTerm, any_name_eq_contains]
  split_ifs with h
  · rw [List.map_map]
    apply List.map_congr_left
    rintro ⟨m, l⟩ -
    dsimp only [Function.comp]
    split_ifs <;> rfl
  · rw [List.map_append, List.map_singleton]

theorem addTerm_ne_nil (found : List (String × F)) (n : String) (k : F) :
    addTerm found n k ≠ [] := by
  rw [addTerm]
  split_ifs with h
  · rw [Ne, List.map_eq_nil_iff]
    rintro rfl
    exact absurd h (by simp)
  · exact List.append_ne_nil_of_right_ne_nil _ (List.cons_ne_nil _ _)

end Single

variable {found : List (String × ℚ)} {n : String} {k : ℚ} {ts : List TermText}

theorem map_foldl_addText (found : List (String × ℚ)) (ts : List TermText) :
    (ts.foldl addText found).map (·.1) =
      (ts.map TermText.key).foldl
        (fun names name => if names.contains name then names else names ++ [name])
        (found.map (·.1)) := by
  induction ts generalizing found with
  | nil => rfl
  | cons t ts ih => rw [List.foldl_cons, ih, addText, map_addTerm, List.map_cons, List.foldl_cons]

theorem mem_collect : n ∈ (collect ts).map (·.1) ↔ ∃ t ∈ ts, t.key = n := by
  rw [collect, map_foldl_addText, LinearProgram.mem_foldl_names, List.mem_map]
  simp

theorem nodup_foldl_addText (ts : List TermText) (h : (found.map (·.1)).Nodup) :
    ((ts.foldl addText found).map (·.1)).Nodup := by
  rw [map_foldl_addText]
  exact LinearProgram.nodup_foldl_names h

theorem nodup_collect (ts : List TermText) : ((collect ts).map (·.1)).Nodup :=
  nodup_foldl_addText ts List.nodup_nil

def value (x : String → ℚ) (found : List (String × ℚ)) : ℚ := (found.map fun t => t.2 * x t.1).sum

def textValue (ts : List TermText) (x : String → ℚ) : ℚ :=
  (ts.map fun t => t.coefficient * x t.key).sum

theorem value_addTerm (h : (found.map (·.1)).Nodup) (x : String → ℚ) (n : String) (k : ℚ) :
    value x (addTerm found n k) = value x found + k * x n := by
  have hcount (found : List (String × ℚ)) :
      value x (found.map fun (m, l) => if m == n then (m, l + k) else (m, l)) =
        value x found + (found.map (·.1)).count n * (k * x n) := by
    induction found with
    | nil => simp [value]
    | cons t found ih =>
      simp only [value, List.map_cons, List.sum_cons, List.count_cons] at ih ⊢
      rw [ih]
      split_ifs with heq
      · rw [beq_iff_eq] at heq
        rw [← heq]
        push_cast
        ring
      · push_cast
        ring
  rw [addTerm, any_name_eq_contains]
  split_ifs with hn
  · rw [hcount, List.count_eq_one_of_mem h (List.contains_iff_mem.mp hn), Nat.cast_one, one_mul]
  · rw [value, List.map_append, List.sum_append, List.map_singleton, List.sum_singleton, value]

/-- Adding up terms of one name does not change the value of all. -/
theorem value_collect (ts : List TermText) (x : String → ℚ) :
    value x (collect ts) = textValue ts x := by
  suffices h : ∀ found : List (String × ℚ), (found.map (·.1)).Nodup →
      value x (ts.foldl addText found) = value x found + textValue ts x by
    rw [collect, h [] List.nodup_nil, value, List.map_nil, List.sum_nil, zero_add]
  induction ts with
  | nil => exact fun found _ => (add_zero _).symm
  | cons t ts ih =>
    intro found h
    have hnext : ((addText found t).map (·.1)).Nodup := nodup_foldl_addText [t] h
    rw [List.foldl_cons, ih _ hnext, addText, value_addTerm h, textValue, textValue, List.map_cons,
      List.sum_cons, add_assoc]

end Names

section Steps

variable {F : Type} [Scalar F] [Numeral F] {found : List (String × F)} {cs rest : List Char}

theorem terms_of_blank (h : ∀ c ∈ cs, Text.isBlank c = true) : terms found cs = .ok found := by
  have hnil : (Text.trimLeft cs).isEmpty = true :=
    List.isEmpty_iff.mpr (List.dropWhile_eq_nil_iff.mpr h)
  rw [terms, if_pos hnil]

theorem terms_of_term {n : String} {k : F}
    (h : term found.isEmpty cs = .ok ((n, k), rest)) (hcs : ¬(Text.trimLeft cs).isEmpty) :
    terms found cs = terms (addTerm found n k) rest := by
  rw [terms, if_neg hcs]
  split
  · next heq =>
    rw [heq] at h
    exact absurd h (by simp)
  · next heq =>
    rw [heq] at h
    obtain ⟨⟨rfl, rfl⟩, rfl⟩ := by simpa using h
    rfl

theorem terms_of_fault {fault : ExpressionFault}
    (h : (term found.isEmpty cs : Except _ ((String × F) × List Char)) = .error fault)
    (hcs : ¬(Text.trimLeft cs).isEmpty) : terms found cs = .error fault := by
  rw [terms, if_neg hcs]
  split
  · next heq =>
    rw [heq] at h
    rw [Except.error.inj h]
  · next heq =>
    rw [heq] at h
    exact absurd h (by simp)

/-- Terms that are read to the end are read one after another, up to blanks. -/
theorem terms_induction {result : List (String × F)} {P : List (String × F) → List Char → Prop}
    (h : terms found cs = .ok result)
    (blank : ∀ cs, (∀ c ∈ cs, Text.isBlank c = true) → P result cs)
    (next : ∀ found cs n k rest, term found.isEmpty cs = .ok ((n, k), rest) →
      P (addTerm found n k) rest → P found cs) : P found cs := by
  induction found, cs using terms.induct with
  | case1 found cs hempty =>
    have hblank : ∀ c ∈ cs, Text.isBlank c = true :=
      List.dropWhile_eq_nil_iff.mp (List.isEmpty_iff.mp hempty)
    rw [terms_of_blank hblank, Except.ok.injEq] at h
    exact h ▸ blank cs hblank
  | case2 found cs hcs fault hterm =>
    rw [terms_of_fault hterm hcs] at h
    exact absurd h (by simp)
  | case3 found cs hcs n k rest hterm hlength ih =>
    rw [terms_of_term hterm hcs] at h
    exact next found cs n k rest hterm (ih h)

theorem isName_of_terms_eq_ok {result : List (String × F)} (h : terms found cs = .ok result) :
    (∀ n ∈ found.map (·.1), IsName n.toList) → ∀ n ∈ result.map (·.1), IsName n.toList := by
  apply terms_induction h
  · exact fun _ _ => id
  · intro found cs n k rest hterm ih hfound
    obtain ⟨-, _, word, -, hword, -, hnamed, -⟩ := parts_of_term_eq_ok hterm
    obtain ⟨rfl, -⟩ := Prod.mk.inj hnamed
    have hname : IsName (String.ofList word).toList := by rwa [String.toList_ofList]
    refine ih fun m hm => ?_
    rw [map_addTerm] at hm
    split_ifs at hm
    · exact hfound m hm
    · rcases List.mem_append.mp hm with hm | hm
      · exact hfound m hm
      · rwa [List.mem_singleton.mp hm]

theorem terms_of_expression_eq_ok {result : List (String × F)} (h : expression cs = .ok result) :
    terms [] cs = .ok result ∧ result ≠ [] := by
  simp only [expression, bind, Except.bind] at h
  split at h
  · exact absurd h (by simp)
  next found hfound =>
  split_ifs at h with hempty
  obtain rfl := Except.ok.inj h
  exact ⟨hfound, List.isEmpty_iff.not.mp hempty⟩

theorem isName_of_expression_eq_ok {result : List (String × F)} (h : expression cs = .ok result) :
    ∀ n ∈ result.map (·.1), IsName n.toList :=
  isName_of_terms_eq_ok (terms_of_expression_eq_ok h).1 (List.forall_mem_nil _)

end Steps

variable {cs blanks rest : List Char} {ts : List TermText} {found result : List (String × ℚ)}

theorem IsName.trimLeft_ne_nil {word : List Char} (h : IsName word) (before rest : List Char) :
    ¬(Text.trimLeft (before ++ (word ++ rest))).isEmpty := by
  rw [List.isEmpty_iff, Text.trimLeft, List.dropWhile_eq_nil_iff]
  intro hblank
  obtain ⟨⟨c, hc, halpha⟩, -⟩ := h
  have := hblank c (by simp [List.mem_of_mem_head? hc])
  rw [isBlank_of_isAlpha halpha] at this
  exact Bool.false_ne_true this

theorem isNameChar_head?_texts (hts : ∀ t ∈ ts, t.IsSigned)
    (hblanks : ∀ c ∈ blanks, Text.isBlank c = true) :
    ∀ c ∈ ((ts.map TermText.text).flatten ++ blanks).head?, isNameChar c = false := by
  intro c hc
  cases ts with
  | nil => exact isNameChar_of_isLead (isLead_of_isBlank (hblanks c (List.mem_of_mem_head? hc)))
  | cons t ts =>
    obtain ⟨a, ha, -⟩ := hts t List.mem_cons_self
    obtain ⟨d, ds, hd⟩ := List.exists_cons_of_ne_nil (List.ne_nil_of_mem ha)
    have hlead : isLead d = true := t.lead_isLead d (hd ▸ List.mem_cons_self)
    rw [List.map_cons, TermText.text, hd] at hc
    obtain rfl := Option.some.inj hc
    exact isNameChar_of_isLead hlead

theorem terms_cons {t : TermText} (ht : found.isEmpty ∨ t.IsSigned) (hts : ∀ t ∈ ts, t.IsSigned)
    (hblanks : ∀ c ∈ blanks, Text.isBlank c = true) :
    terms found (((t :: ts).map TermText.text).flatten ++ blanks) =
      terms (addText found t) ((ts.map TermText.text).flatten ++ blanks) := by
  rw [List.map_cons, List.flatten_cons, List.append_assoc]
  exact terms_of_term (term_text t ht (isNameChar_head?_texts hts hblanks))
    (by simpa [TermText.text] using t.name_isName.trimLeft_ne_nil (t.lead ++ t.digits ++ t.gap) _)

theorem terms_texts (hts : ∀ t ∈ ts, t.IsSigned) (hblanks : ∀ c ∈ blanks, Text.isBlank c = true) :
    terms found ((ts.map TermText.text).flatten ++ blanks) = .ok (ts.foldl addText found) := by
  induction ts generalizing found with
  | nil => exact terms_of_blank hblanks
  | cons t ts ih =>
    obtain ⟨ht, hts⟩ := List.forall_mem_cons.mp hts
    rw [terms_cons (.inr ht) hts hblanks, ih hts]
    rfl

/-- What is read to the end of a text is a sequence of terms, with signs where terms stand
before them. -/
theorem terms_eq_ok (h : terms found cs = .ok result) :
    ∃ (ts : List TermText) (blanks : List Char), (∀ c ∈ blanks, Text.isBlank c = true) ∧
      cs = (ts.map TermText.text).flatten ++ blanks ∧ result = ts.foldl addText found ∧
      (∀ t ∈ ts.tail, t.IsSigned) ∧ (found ≠ [] → ∀ t ∈ ts, t.IsSigned) := by
  apply terms_induction h
  · intro cs hblank
    exact ⟨[], cs, hblank, rfl, rfl, List.forall_mem_nil _, fun _ => List.forall_mem_nil _⟩
  · intro found cs n k rest hterm ih
    obtain ⟨ts, blanks, hblanks, hrest, hresult, -, hts⟩ := ih
    obtain ⟨t, hcut, ht, hsign, -⟩ := term_eq_ok hterm
    obtain ⟨rfl, rfl⟩ := Prod.mk.inj ht
    have hts := hts (addTerm_ne_nil _ _ _)
    refine ⟨t :: ts, blanks, hblanks, ?_, hresult, hts, fun hfound => ?_⟩
    · rw [hcut, hrest, List.map_cons, List.flatten_cons, List.append_assoc]
    · have hsome : ¬found.isEmpty := List.isEmpty_iff.not.mpr hfound
      exact List.forall_mem_cons.mpr ⟨hsign.resolve_left hsome, hts⟩

theorem collect_ne_nil {t : TermText} : collect (t :: ts) ≠ [] := by
  intro h
  have hmem : t.key ∈ (collect (t :: ts)).map (·.1) :=
    mem_collect.mpr ⟨t, List.mem_cons_self, rfl⟩
  rw [h] at hmem
  exact absurd hmem List.not_mem_nil

theorem Spells.expression (h : Spells cs ts) : expression cs = .ok (collect ts) := by
  obtain ⟨hnonempty, hsigned, blanks, hblanks, rfl⟩ := h
  obtain ⟨t, ts, rfl⟩ := List.exists_cons_of_ne_nil hnonempty
  have hterms : terms [] (((t :: ts).map TermText.text).flatten ++ blanks) =
      .ok (collect (t :: ts)) := by
    have hsigned : ∀ t ∈ ts, t.IsSigned := hsigned
    rw [terms_cons (.inl rfl) hsigned hblanks, terms_texts hsigned hblanks]
    rfl
  rw [Linear.expression, hterms]
  exact if_neg (List.isEmpty_iff.not.mpr collect_ne_nil)

/-- A text is read exactly when it is a sum of terms. -/
theorem expression_eq_ok_iff :
    expression cs = .ok result ↔ ∃ ts, Spells cs ts ∧ result = collect ts := by
  constructor
  · intro h
    obtain ⟨hfound, hne⟩ := terms_of_expression_eq_ok h
    obtain ⟨ts, blanks, hblanks, htext, hresult, hsigned, -⟩ := terms_eq_ok hfound
    refine ⟨ts, ⟨?_, hsigned, blanks, hblanks, htext⟩, hresult⟩
    rintro rfl
    exact hne hresult
  · rintro ⟨ts, hts, rfl⟩
    exact hts.expression

end Expressions

end Optima.Linear
