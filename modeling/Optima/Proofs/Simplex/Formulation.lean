import Optima.Proofs.Doubles
import Optima.Proofs.Linear.Format
import Optima.Proofs.Simplex.Standard

namespace Optima

namespace Text

theorem lines_intercalate {ls : List (List Char)} (hne : ls ≠ []) (h : ∀ l ∈ ls, '\n' ∉ l) :
    lines (['\n'].intercalate ls) = ls := by
  have hpass {l : List Char} (hl : '\n' ∉ l) : ∀ c ∈ l, (c == '\n') = false := fun c hc =>
    beq_eq_false_iff_ne.mpr fun heq => hl (heq ▸ hc)
  induction ls with
  | nil => exact absurd rfl hne
  | cons l ls ih =>
    obtain ⟨hl, hls⟩ := List.forall_mem_cons.mp h
    cases ls with
    | nil =>
      have hcut : pieces (· == '\n') (l ++ []) = [l ++ []] := pieces_append (hpass hl) rfl
      rw [List.append_nil] at hcut
      rw [List.intercalate_singleton, lines, hcut]
    | cons m ls =>
      have hrest : pieces (· == '\n') ('\n' :: ['\n'].intercalate (m :: ls)) = [] :: m :: ls :=
        congrArg (List.cons []) (ih (List.cons_ne_nil _ _) hls)
      have hcut := pieces_append (hpass hl) hrest
      rw [List.append_nil] at hcut
      rw [List.intercalate_cons_cons, lines, List.append_assoc]
      exact hcut

theorem trim_of_forall_not_blank {w : List Char} (h : ∀ c ∈ w, isBlank c = false) : trim w = w := by
  have hkeep {v : List Char} (hv : ∀ c ∈ v, isBlank c = false) : trimLeft v = v := by
    cases v with
    | nil => rfl
    | cons c v => exact List.dropWhile_cons_of_neg (by simp [hv c List.mem_cons_self])
  rw [trim, hkeep h, hkeep fun c hc => h c (List.mem_reverse.mp hc), List.reverse_reverse]

def IsLine (s : String) : Prop := '\n' ∉ s.toList

instance (s : String) : Decidable (IsLine s) := inferInstanceAs (Decidable (¬_))

theorem isLine_append {s t : String} : IsLine (s ++ t) ↔ IsLine s ∧ IsLine t := by
  rw [IsLine, String.toList_append, List.mem_append, not_or]
  rfl

end Text

namespace Simplex

open Decimal Linear Numeral

variable {x k : Float} {negative : Bool} {digits : List Char} {n : String}

section Terms

/-- How a number is written before a name: a sign, and digits unless they would be one. -/
structure Stands (x : Float) (negative : Bool) (digits : List Char) (k : Float) : Prop where
  isNumeric : ∀ c ∈ digits, isNumeric c = true
  coefficient : coefficient digits = .ok k
  value : x = if negative then -k else k
  text : ∀ name, (termText (Numeral.text x) name).toList =
    (if negative then ['-'] else []) ++ (digits ++ name.toList)

def operator (negative : Bool) : List Char := if negative then [' ', '-', ' '] else [' ', '+', ' ']

theorem exists_stands (hfinite : Scalar.isFinite x = true) (hback : ReadsBack x) :
    ∃ negative digits k, Stands x negative digits k := by
  have hone {t : String} {y : Float} (htext : Numeral.text x = t)
      (hread : Numeral.read? t.toList = some y) : x = y := by
    rw [ReadsBack, htext, hread, Option.some.injEq] at hback
    exact hback.symm
  by_cases h : Numeral.text x = "1"
  · refine ⟨false, [], 1, List.forall_mem_nil _, rfl, hone h (by decide +kernel), fun name => ?_⟩
    rw [h]
    rfl
  by_cases h' : Numeral.text x = "-1"
  · refine ⟨true, [], 1, List.forall_mem_nil _, rfl, hone h' (by decide +kernel), fun name => ?_⟩
    rw [h']
    exact String.toList_append
  have hplain (name : String) :
      (termText (Numeral.text x) name).toList = (Numeral.text x).toList ++ name.toList := by
    unfold termText
    split
    · exact absurd ‹_› h
    · exact absurd ‹_› h'
    · exact String.toList_append
  obtain ⟨negative, s, htext, hs⟩ := exists_isUnsigned hfinite hback
  have hcoefficient {y : Float} (hy : Numeral.read? s.toList = some y) :
      coefficient s.toList = .ok y := by
    rw [Linear.coefficient, List.isEmpty_eq_false_iff.mpr hs.1, if_neg Bool.false_ne_true, hy]
  rw [ReadsBack, htext] at hback
  cases negative with
  | false =>
    have hread : Numeral.read? s.toList = some x := by simpa [signText] using hback
    refine ⟨false, s.toList, x, hs.2, hcoefficient hread, rfl, fun name => ?_⟩
    rw [hplain, htext]
    simp [signText]
  | true =>
    have hread : (Numeral.read? s.toList).map (-·) = some x := by
      rw [← read?_neg hs]
      simpa [signText] using hback
    obtain ⟨y, hy, rfl⟩ := Option.map_eq_some_iff.mp hread
    refine ⟨true, s.toList, y, hs.2, hcoefficient hy, rfl, fun name => ?_⟩
    rw [hplain, htext]
    simp [signText]

/-- A column as it stands after others: an operator in place of the sign. -/
theorem Stands.toList_appendTerm (h : Stands x negative digits k) (hn : IsName n.toList)
    {before : String} (hbefore : before.toList ≠ []) :
    (appendTerm before (termText (Numeral.text x) n)).toList =
      before.toList ++ (operator negative ++ (digits ++ n.toList)) := by
  have hsome : before.isEmpty = false := by
    rw [← Bool.not_eq_true, String.isEmpty_iff]
    rintro rfl
    exact hbefore rfl
  rw [appendTerm, hsome, if_neg Bool.false_ne_true, h.text]
  cases negative with
  | true => simp [operator]
  | false =>
    have hminus : ∀ rest, [] ++ (digits ++ n.toList) ≠ '-' :: rest := by
      intro rest heq
      cases digits with
      | nil =>
        have halpha := hn.head?_append []
        rw [List.append_nil] at halpha
        exact absurd (halpha '-' (by rw [List.nil_append, List.nil_append] at heq; rw [heq]; rfl))
          (by decide)
      | cons d digits =>
        have hd := h.isNumeric d List.mem_cons_self
        rw [(List.cons.inj heq).1] at hd
        exact absurd hd (by decide)
    split
    · exact absurd ‹_› (hminus _)
    · rw [String.toList_append, String.toList_append, h.text]
      simp [operator]

theorem Stands.terms (h : Stands x negative digits k) (hn : IsName n.toList) {lead rest : List Char}
    {found : List (String × Float)} (hlead : ∀ c ∈ lead, isLead c = true)
    (hcount : lead.count '-' = if negative then 1 else 0)
    (hsign : found.isEmpty ∨ ∃ c ∈ lead, isSign c = true)
    (hrest : ∀ c ∈ rest.head?, isNameChar c = false) :
    terms found (lead ++ (digits ++ (n.toList ++ rest))) = terms (addTerm found n x) rest := by
  have hgap : ∀ c ∈ ([] : List Char), Text.isBlank c = true := List.forall_mem_nil _
  have hread := term_append hlead hsign h.isNumeric h.coefficient hgap (fun _ => rfl) hn hrest
  have hvalue : (if lead.count '-' % 2 = 0 then k else -k) = x := by
    rw [hcount, h.value]
    cases negative <;> rfl
  rw [hvalue, String.ofList_toList, List.nil_append] at hread
  apply terms_of_term hread
  rw [← List.append_assoc]
  exact hn.trimLeft_ne_nil _ _

end Terms

section Plain

def IsPlain (c : Char) : Prop := c ≠ '\n' ∧ isRelationChar c = false

theorem isPlain_of_toNat {c : Char} (h : c.toNat ≠ 10 ∧ (c.toNat < 60 ∨ 62 < c.toNat)) :
    IsPlain c := by
  have hne {d : Char} (hd : c.toNat ≠ d.toNat) : c ≠ d := fun heq => hd (heq ▸ rfl)
  have hless : c ≠ '<' := hne (show c.toNat ≠ 60 by omega)
  have hequal : c ≠ '=' := hne (show c.toNat ≠ 61 by omega)
  have hmore : c ≠ '>' := hne (show c.toNat ≠ 62 by omega)
  exact ⟨hne h.1, by simp [isRelationChar, hless, hequal, hmore]⟩

theorem isPlain_of_isNumeric {c : Char} (h : isNumeric c = true) : IsPlain c := by
  have := isNumeric_iff.mp h
  exact isPlain_of_toNat (by omega)

theorem isPlain_of_isNameChar {c : Char} (h : isNameChar c = true) : IsPlain c := by
  have := isNameChar_iff.mp h
  exact isPlain_of_toNat (by omega)

theorem isPlain_operator (negative : Bool) : ∀ c ∈ operator negative, IsPlain c := by
  cases negative
  all_goals
    intro c hc
    fin_cases hc <;> exact isPlain_of_toNat (by decide)

end Plain

section Rows

theorem isLine_text (x : Float) : Text.IsLine (Numeral.text x) := by
  obtain ⟨negative, s, htext, hs⟩ := text_cases x
  rw [htext, Text.isLine_append]
  refine ⟨by cases negative <;> decide, ?_⟩
  rcases hs with hs | rfl | ⟨rfl, -⟩
  · exact fun hmem => (isPlain_of_isNumeric (hs.2 _ hmem)).1 rfl
  · decide
  · decide

/-- Columns that can be written: their entries are finite and read back, and they have names. -/
def Writable (columns : List (Float × String)) : Prop :=
  ∀ c ∈ columns, Scalar.isFinite c.1 = true ∧ ReadsBack c.1 ∧ IsName c.2.toList

def columnText (c : Float × String) : String := termText (Numeral.text c.1) c.2

def addColumn (found : List (String × Float)) (c : Float × String) : List (String × Float) :=
  addTerm found c.2 c.1

theorem isPlain_of_mem_append (hdigits : ∀ c ∈ digits, isNumeric c = true) (hn : IsName n.toList) :
    ∀ c ∈ digits ++ n.toList, IsPlain c := by
  intro c hc
  rcases List.mem_append.mp hc with hc | hc
  · exact isPlain_of_isNumeric (hdigits c hc)
  · exact isPlain_of_isNameChar (hn.nameChar c hc)

theorem foldl_addColumn_ne_nil (columns : List (Float × String)) {found : List (String × Float)}
    (hfound : found ≠ []) : columns.foldl addColumn found ≠ [] := by
  induction columns generalizing found with
  | nil => exact hfound
  | cons c columns ih => exact ih (addTerm_ne_nil _ _ _)

theorem not_isNameChar_of_head? {rest : List Char} (h : rest.head? = some ' ') :
    ∀ c ∈ rest.head?, isNameChar c = false := by
  rw [h]
  rintro c ⟨⟩
  rfl

/-- Columns after others. Every one of them starts with a blank, at which the name before it
ends. -/
theorem exists_toList_foldl {columns : List (Float × String)} (h : Writable columns)
    {before : String} (hbefore : before.toList ≠ []) :
    ∃ tail, ((columns.map columnText).foldl appendTerm before).toList = before.toList ++ tail ∧
      (∀ c ∈ tail, IsPlain c) ∧ (tail ++ [' ']).head? = some ' ' ∧
      ∀ found, terms found (tail ++ [' ']) = .ok (columns.foldl addColumn found) := by
  induction columns generalizing before with
  | nil =>
    refine ⟨[], (List.append_nil _).symm, List.forall_mem_nil _, rfl, fun found => ?_⟩
    exact terms_of_blank (by simp [Text.isBlank])
  | cons c columns ih =>
    obtain ⟨⟨hfinite, hback, hn⟩, hcolumns⟩ := List.forall_mem_cons.mp h
    obtain ⟨negative, digits, k, hstands⟩ := exists_stands hfinite hback
    have hnext := hstands.toList_appendTerm hn hbefore
    have hsome : (appendTerm before (columnText c)).toList ≠ [] := by
      simp [columnText, hnext, hbefore]
    obtain ⟨tail, htext, hplain, hhead, hread⟩ := ih hcolumns hsome
    refine ⟨operator negative ++ (digits ++ c.2.toList) ++ tail, ?_, ?_, ?_, fun found => ?_⟩
    · rw [List.map_cons, List.foldl_cons, htext, columnText, hnext, List.append_assoc]
    · have hpiece := isPlain_of_mem_append hstands.isNumeric hn
      exact List.forall_mem_append.mpr
        ⟨List.forall_mem_append.mpr ⟨isPlain_operator negative, hpiece⟩, hplain⟩
    · cases negative <;> rfl
    · have hrest := not_isNameChar_of_head? hhead
      have hlead : ∀ d ∈ operator negative, isLead d = true := by
        cases negative <;> simp [operator, isLead, isSign, Text.isBlank]
      have hcount : (operator negative).count '-' = if negative then 1 else 0 := by
        cases negative <;> rfl
      have hsign : ∃ d ∈ operator negative, isSign d = true := by
        cases negative <;> simp [operator, isSign]
      rw [List.foldl_cons, ← hread (addColumn found c), addColumn,
        ← hstands.terms hn hlead hcount (.inr hsign) hrest]
      simp only [List.append_assoc]

/-- A sum of columns is read as their terms. -/
theorem expression_joinTerms {columns : List (Float × String)} (h : Writable columns)
    (hne : columns ≠ []) :
    expression ((joinTerms (columns.map columnText)).toList ++ [' ']) =
        .ok (columns.foldl addColumn []) ∧
      ∀ c ∈ (joinTerms (columns.map columnText)).toList, IsPlain c := by
  obtain ⟨c, columns, rfl⟩ := List.exists_cons_of_ne_nil hne
  obtain ⟨⟨hfinite, hback, hn⟩, hcolumns⟩ := List.forall_mem_cons.mp h
  obtain ⟨negative, digits, k, hstands⟩ := exists_stands hfinite hback
  have hfirst : (columnText c).toList =
      (if negative then ['-'] else []) ++ (digits ++ c.2.toList) := hstands.text c.2
  have hsome : (columnText c).toList ≠ [] := by
    obtain ⟨d, hd, -⟩ := hn.alpha
    rw [hfirst]
    simp [List.ne_nil_of_mem (List.mem_of_mem_head? hd)]
  obtain ⟨tail, htext, hplain, hhead, hread⟩ := exists_toList_foldl hcolumns hsome
  have hjoin : (joinTerms ((c :: columns).map columnText)).toList =
      (columnText c).toList ++ tail := by
    rw [← htext]
    rfl
  have hrest := not_isNameChar_of_head? hhead
  have hlead : ∀ d ∈ (if negative then ['-'] else []), isLead d = true := by
    cases negative <;> simp [isLead, isSign]
  have hcount : (if negative then ['-'] else []).count '-' = if negative then 1 else 0 := by
    cases negative <;> rfl
  rw [hjoin, hfirst]
  constructor
  · have hstart : terms [] _ = terms _ _ := hstands.terms hn hlead hcount (.inl rfl) hrest
    have hterms := hstart.trans (hread _)
    have hcut : (if negative then ['-'] else []) ++ (digits ++ c.2.toList) ++ tail ++ [' '] =
        (if negative then ['-'] else []) ++ (digits ++ (c.2.toList ++ (tail ++ [' ']))) := by
      simp only [List.append_assoc]
    rw [hcut, expression, hterms]
    exact if_neg (List.isEmpty_iff.not.mpr (foldl_addColumn_ne_nil columns (addTerm_ne_nil _ _ _)))
  · have hsign : ∀ d ∈ (if negative then ['-'] else []), IsPlain d := by
      cases negative
      · exact List.forall_mem_nil _
      · exact List.forall_mem_singleton.mpr (isPlain_of_toNat (by decide))
    have hpiece := isPlain_of_mem_append hstands.isNumeric hn
    exact List.forall_mem_append.mpr ⟨List.forall_mem_append.mpr ⟨hsign, hpiece⟩, hplain⟩

theorem isBlank_text (hfinite : Scalar.isFinite x = true) (hback : ReadsBack x) :
    ∀ c ∈ (Numeral.text x).toList, Text.isBlank c = false := by
  obtain ⟨negative, s, htext, hs⟩ := exists_isUnsigned hfinite hback
  have hdigits : ∀ c ∈ s.toList, Text.isBlank c = false := fun c hc => by
    have hlead := isLead_of_isNumeric (hs.2 c hc)
    exact (Bool.or_eq_false_iff.mp hlead).2
  rw [htext, String.toList_append]
  refine List.forall_mem_append.mpr ⟨?_, hdigits⟩
  cases negative
  · exact List.forall_mem_nil _
  · change ∀ c ∈ ['-'], Text.isBlank c = false
    exact List.forall_mem_singleton.mpr (by simp [Text.isBlank])

/-- A row as it is written is read as the sum of its columns and its right side. -/
theorem constraint_row {columns : List (Float × String)} (h : Writable columns) (hne : columns ≠ [])
    (hfinite : Scalar.isFinite x = true) (hback : ReadsBack x) :
    constraint (joinTerms (columns.map columnText) ++ " = " ++ Numeral.text x).toList =
        .ok ⟨columns.foldl addColumn [], .equal, x⟩ ∧
      Text.IsLine (joinTerms (columns.map columnText) ++ " = " ++ Numeral.text x) := by
  obtain ⟨hread, hplain⟩ := expression_joinTerms h hne
  have hblank := isBlank_text hfinite hback
  constructor
  · have hleft : ∀ c ∈ (joinTerms (columns.map columnText)).toList ++ [' '],
        isRelationChar c = false :=
      List.forall_mem_append.mpr ⟨fun c hc => (hplain c hc).2, List.forall_mem_singleton.mpr rfl⟩
    have hsign : IsOperator .equal ['='] (' ' :: (Numeral.text x).toList) :=
      .inl ⟨rfl, by simp⟩
    have htrim : Text.trim (' ' :: (Numeral.text x).toList) = (Numeral.text x).toList :=
      Text.trim_of_forall_not_blank hblank
    have hcut := constraint_append (F := Float) hleft hsign
    have hline : (joinTerms (columns.map columnText) ++ " = " ++ Numeral.text x).toList =
        (joinTerms (columns.map columnText)).toList ++ [' '] ++
          (['='] ++ ' ' :: (Numeral.text x).toList) := by simp
    rw [hread, htrim, hback] at hcut
    rw [hline, hcut]
  · have hsum : Text.IsLine (joinTerms (columns.map columnText)) := fun hmem =>
      (hplain _ hmem).1 rfl
    exact Text.isLine_append.mpr
      ⟨Text.isLine_append.mpr ⟨hsum, by decide⟩, isLine_text x⟩

end Rows

section Objective

theorem isLine_bigM (a : BigM Float) : Text.IsLine a.text := by
  unfold BigM.text
  extract_lets part
  have hpart : Text.IsLine part := by
    unfold part
    split_ifs
    · decide
    · decide
    · exact Text.isLine_append.mpr ⟨isLine_text _, by decide⟩
  split_ifs
  · exact isLine_text _
  · exact hpart
  · exact Text.isLine_append.mpr ⟨isLine_text _, hpart⟩
  · have hplus := Text.isLine_append.mpr ⟨isLine_text a.constant, (by decide : Text.IsLine "+")⟩
    exact Text.isLine_append.mpr ⟨hplus, hpart⟩

theorem isLine_termText {number name : String} (hnumber : Text.IsLine number)
    (hname : Text.IsLine name) : Text.IsLine (termText number name) := by
  unfold termText
  split
  · exact hname
  · exact Text.isLine_append.mpr ⟨by decide, hname⟩
  · exact Text.isLine_append.mpr ⟨hnumber, hname⟩

theorem isLine_appendTerm {before term : String} (hbefore : Text.IsLine before)
    (hterm : Text.IsLine term) : Text.IsLine (appendTerm before term) := by
  unfold appendTerm
  split_ifs
  · exact hterm
  · split
    · next rest hrest =>
      refine Text.isLine_append.mpr ⟨Text.isLine_append.mpr ⟨hbefore, by decide⟩, ?_⟩
      rw [Text.IsLine, String.toList_ofList]
      intro hmem
      rw [Text.IsLine, hrest] at hterm
      exact hterm (List.mem_cons_of_mem _ hmem)
    · exact Text.isLine_append.mpr ⟨Text.isLine_append.mpr ⟨hbefore, by decide⟩, hterm⟩

theorem isLine_joinTerms {ts : List String} (h : ∀ t ∈ ts, Text.IsLine t) :
    Text.IsLine (joinTerms ts) := by
  have hfold {before : String} (hbefore : Text.IsLine before) :
      Text.IsLine (ts.foldl appendTerm before) := by
    induction ts generalizing before with
    | nil => exact hbefore
    | cons t ts ih =>
      obtain ⟨ht, hts⟩ := List.forall_mem_cons.mp h
      exact ih hts (isLine_appendTerm hbefore ht)
  unfold joinTerms
  split_ifs
  · decide
  · exact hfold (by decide)

theorem isLine_objectiveText (goal : Goal) {names : List String} (h : ∀ n ∈ names, Text.IsLine n)
    (cost : List (BigM Float)) : Text.IsLine (objectiveText goal names cost) := by
  refine Text.isLine_append.mpr ⟨Text.isLine_append.mpr ⟨by cases goal <;> decide, by decide⟩,
    isLine_joinTerms fun t ht => ?_⟩
  obtain ⟨⟨c, n⟩, hmem, rfl⟩ := List.mem_map.mp ht
  have hn := h n (List.of_mem_zip (List.mem_of_mem_filter hmem)).2
  exact isLine_termText (isLine_bigM c) hn

end Objective

end Simplex

end Optima
