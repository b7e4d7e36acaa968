import Optima.Linear.Reader
import Optima.Proofs.Linear.Grammar

namespace Optima

namespace Text

variable {c : Char} {cs blanks w rest : List Char} {cut : Char → Bool}

theorem pieces_append (hw : ∀ c ∈ w, cut c = false) {p : List Char} {ps : List (List Char)}
    (hrest : pieces cut rest = p :: ps) : pieces cut (w ++ rest) = (w ++ p) :: ps := by
  induction w with
  | nil => exact hrest
  | cons c w ih =>
    obtain ⟨hc, hw⟩ := List.forall_mem_cons.mp hw
    rw [List.cons_append, pieces, hc, ih hw]
    rfl

theorem words_blank_cons (h : isBlank c = true) : words (c :: cs) = words cs := by
  rw [words, words, pieces, h]
  rfl

theorem words_blanks_append (h : ∀ c ∈ blanks, isBlank c = true) (cs : List Char) :
    words (blanks ++ cs) = words cs := by
  induction blanks with
  | nil => rfl
  | cons c blanks ih =>
    obtain ⟨hc, h⟩ := List.forall_mem_cons.mp h
    rw [List.cons_append, words_blank_cons hc, ih h]

theorem words_of_blanks (h : ∀ c ∈ blanks, isBlank c = true) : words blanks = [] := by
  rw [← List.append_nil blanks, words_blanks_append h]
  rfl

theorem words_append (hne : w ≠ []) (hw : ∀ c ∈ w, isBlank c = false)
    (hrest : ∀ c ∈ rest.head?, isBlank c = true) : words (w ++ rest) = w :: words rest := by
  have hsome : (!w.isEmpty) = true := by simpa using hne
  cases rest with
  | nil =>
    rw [words, pieces_append hw rfl, List.append_nil, List.filter_cons, if_pos hsome]
    rfl
  | cons c rest =>
    have hc : pieces isBlank (c :: rest) = [] :: pieces isBlank rest := by
      rw [pieces, hrest c rfl]
    rw [words_blank_cons (hrest c rfl), words, pieces_append hw hc, List.append_nil,
      List.filter_cons, if_pos hsome, words]

theorem words_cases (cs : List Char) : (∀ c ∈ cs, isBlank c = true) ∨
    ∃ blanks w rest, cs = blanks ++ (w ++ rest) ∧ (∀ c ∈ blanks, isBlank c = true) ∧ w ≠ [] ∧
      (∀ c ∈ w, isBlank c = false) ∧ (∀ c ∈ rest.head?, isBlank c = true) ∧
      words cs = w :: words rest := by
  have hcut := List.takeWhile_append_dropWhile (p := isBlank) (l := cs)
  have hstart := head?_dropWhile_eq_false isBlank cs
  have hblanks : ∀ c ∈ cs.takeWhile isBlank, isBlank c = true := fun c hc =>
    List.mem_takeWhile_imp hc
  generalize cs.takeWhile isBlank = blanks at hcut hblanks
  cases hbody : cs.dropWhile isBlank with
  | nil =>
    rw [hbody, List.append_nil] at hcut
    exact .inl (hcut ▸ hblanks)
  | cons a body =>
    right
    rw [hbody] at hcut hstart
    have ha : isBlank a = false := hstart a rfl
    have hword := List.takeWhile_append_dropWhile (p := (!isBlank ·)) (l := a :: body)
    have hw : ∀ c ∈ (a :: body).takeWhile (!isBlank ·), isBlank c = false := by
      intro c hc
      simpa using List.mem_takeWhile_imp hc
    have hstop : ∀ c ∈ ((a :: body).dropWhile (!isBlank ·)).head?, isBlank c = true := by
      intro c hc
      simpa using head?_dropWhile_eq_false _ _ c hc
    have hne : (a :: body).takeWhile (!isBlank ·) ≠ [] := by
      rw [List.takeWhile_cons, ha]
      exact List.cons_ne_nil _ _
    refine ⟨blanks, _, _, ?_, hblanks, hne, hw, hstop, ?_⟩
    · rw [hword, hcut]
    · rw [← words_append hne hw hstop, hword, ← hcut, words_blanks_append hblanks]

def IsWord (w : List Char) : Prop := w ≠ [] ∧ ∀ c ∈ w, isBlank c = false

theorem words_eq_pair_iff {v w : List Char} : words cs = [v, w] ↔
    ∃ before between after, cs = before ++ v ++ between ++ w ++ after ∧
      (∀ c ∈ before ++ between ++ after, isBlank c = true) ∧ between ≠ [] ∧
      IsWord v ∧ IsWord w := by
  constructor
  · intro h
    rcases words_cases cs with hnone | ⟨before, v', rest, rfl, hbefore, hv, hv', hrest, heq⟩
    · rw [words_of_blanks hnone] at h
      exact absurd h (by simp)
    obtain ⟨rfl, hsecond⟩ := List.cons.inj (heq.symm.trans h)
    rcases words_cases rest with hnone | ⟨between, w', rest, rfl, hbetween, hw, hw', -, heq⟩
    · rw [words_of_blanks hnone] at hsecond
      exact absurd hsecond (by simp)
    obtain ⟨rfl, hnone⟩ := List.cons.inj (heq.symm.trans hsecond)
    rcases words_cases rest with hafter | ⟨_, _, _, _, _, _, _, _, heq⟩
    · refine ⟨before, between, rest, ?_, ?_, ?_, ⟨hv, hv'⟩, hw, hw'⟩
      · simp only [List.append_assoc]
      · simp only [List.forall_mem_append]
        exact ⟨⟨hbefore, hbetween⟩, hafter⟩
      · rintro rfl
        obtain ⟨c, w, rfl⟩ := List.exists_cons_of_ne_nil hw
        have := hrest c rfl
        rw [hw' c List.mem_cons_self] at this
        exact Bool.false_ne_true this
    · rw [heq] at hnone
      exact absurd hnone (by simp)
  · rintro ⟨before, between, after, rfl, hblanks, hne, ⟨hv, hv'⟩, hw, hw'⟩
    simp only [List.forall_mem_append] at hblanks
    obtain ⟨⟨hbefore, hbetween⟩, hafter⟩ := hblanks
    have hstop : ∀ c ∈ (between ++ (w ++ after)).head?, isBlank c = true := by
      intro c hc
      obtain ⟨b, between, rfl⟩ := List.exists_cons_of_ne_nil hne
      obtain rfl := Option.some.inj hc
      exact hbetween b List.mem_cons_self
    have hend : ∀ c ∈ after.head?, isBlank c = true := fun c hc =>
      hafter c (List.mem_of_mem_head? hc)
    simp only [List.append_assoc]
    rw [words_blanks_append hbefore, words_append hv hv' hstop, words_blanks_append hbetween,
      words_append hw hw' hend, words_of_blanks hafter]

theorem cutAt?_eq_some_iff {head body : List Char} :
    cutAt? c cs = some (head, body) ↔ cs = head ++ c :: body ∧ c ∉ head := by
  have hcut := List.takeWhile_append_dropWhile (p := (· != c)) (l := cs)
  constructor
  · intro h
    rw [cutAt?] at h
    split at h
    · exact absurd h (by simp)
    next d rest hrest =>
    obtain ⟨rfl, rfl⟩ := Prod.mk.inj (Option.some.inj h)
    have hd := head?_dropWhile_eq_false (· != c) cs d (by rw [hrest]; rfl)
    obtain rfl : d = c := by simpa using hd
    refine ⟨by rw [← hrest, hcut], fun hmem => ?_⟩
    simpa using List.mem_takeWhile_imp hmem
  · rintro ⟨rfl, hhead⟩
    have hne : ∀ d ∈ head, (d != c) = true := by
      intro d hd
      rw [bne_iff_ne]
      rintro rfl
      exact hhead hd
    have hstop : ∀ d ∈ (c :: body).head?, (d != c) = false := by
      intro d hd
      obtain rfl := Option.some.inj hd
      exact bne_self_eq_false _
    rw [cutAt?, takeWhile_append_of_stop hne hstop, dropWhile_append_of_stop hne hstop]

end Text

namespace Linear

variable {line : List Char} {goal : Goal}

def verbs : Goal → List String
  | .maximize => ["max", "maximize"]
  | .minimize => ["min", "minimize"]

/-- A verb and the letter `z`, with blanks between and around them. -/
def IsHead (goal : Goal) (head : List Char) : Prop :=
  ∃ before verb between letter after, head = before ++ verb ++ between ++ letter ++ after ∧
    (∀ c ∈ before ++ between ++ after, Text.isBlank c = true) ∧ between ≠ [] ∧
    Text.lower verb ∈ verbs goal ∧ Text.lower letter = "z"

def IsObjective (line : List Char) (goal : Goal) (ts : List TermText) : Prop :=
  ∃ head body, line = head ++ '=' :: body ∧ '=' ∉ head ∧ IsHead goal head ∧ Spells body ts

theorem isWord_of_lower {word : List Char} {small : String} (h : Text.lower word = small)
    (hsmall : Text.IsWord small.toList) : Text.IsWord word := by
  rw [← h, Text.lower, String.toList_ofList] at hsmall
  refine ⟨fun hnil => hsmall.1 (by rw [hnil, List.map_nil]), fun c hc => ?_⟩
  rw [← Bool.not_eq_true]
  intro hblank
  have hlower := hsmall.2 c.toLower (List.mem_map_of_mem hc)
  have hcode := toNat_of_isBlank hblank
  rw [toLower_eq_self (by omega), hblank] at hlower
  exact Bool.false_ne_true hlower.symm

theorem isWord_of_mem_verbs {small : String} (h : small ∈ verbs goal) :
    Text.IsWord small.toList := by
  have hall : ∀ s ∈ verbs goal, Text.IsWord s.toList := by
    cases goal <;> simp [verbs, Text.IsWord, Text.isBlank]
  exact hall small h

theorem isHead_iff {head : List Char} :
    IsHead goal head ↔ ∃ verb ∈ verbs goal, (Text.words head).map Text.lower = [verb, "z"] := by
  constructor
  · rintro ⟨before, verb, between, letter, after, rfl, hblanks, hne, hverb, hletter⟩
    have hz : Text.IsWord "z".toList := by simp [Text.IsWord, Text.isBlank]
    have hwords : Text.words (before ++ verb ++ between ++ letter ++ after) = [verb, letter] :=
      Text.words_eq_pair_iff.mpr ⟨before, between, after, rfl, hblanks, hne,
        isWord_of_lower rfl (isWord_of_mem_verbs hverb), isWord_of_lower hletter hz⟩
    refine ⟨_, hverb, ?_⟩
    rw [hwords, List.map_cons, List.map_singleton, hletter]
  · rintro ⟨small, hverb, h⟩
    obtain ⟨verb, rest, hwords, hsmall, hrest⟩ := List.map_eq_cons_iff.mp h
    obtain ⟨letter, hletter, hz⟩ := List.map_eq_singleton_iff.mp hrest
    rw [hletter] at hwords
    obtain ⟨before, between, after, hhead, hblanks, hne, -⟩ := Text.words_eq_pair_iff.mp hwords
    exact ⟨before, verb, between, letter, after, hhead, hblanks, hne, hsmall ▸ hverb, hz⟩

theorem objective_eq_ok {head body : List Char} {verb : String} {found : List (String × ℚ)}
    (hcut : Text.cutAt? '=' line = some (head, body)) (hverb : verb ∈ verbs goal)
    (hwords : (Text.words head).map Text.lower = [verb, "z"])
    (hbody : expression body = .ok found) : objective line = .ok (goal, found) := by
  cases goal with
  | maximize =>
    have hmax : verb = "max" ∨ verb = "maximize" := by simpa [verbs] using hverb
    simp [objective, hcut, hwords, hbody, hmax, Except.mapError]
  | minimize =>
    have hmin : verb = "min" ∨ verb = "minimize" := by simpa [verbs] using hverb
    have hmax : ¬(verb = "max" ∨ verb = "maximize") := by
      rcases hmin with rfl | rfl <;> decide
    simp [objective, hcut, hwords, hbody, hmin, hmax, Except.mapError]

theorem parts_of_objective_eq_ok {F : Type} [Scalar F] [Numeral F] {found : List (String × F)}
    (h : objective line = .ok (goal, found)) :
    ∃ head body, Text.cutAt? '=' line = some (head, body) ∧
      (∃ verb ∈ verbs goal, (Text.words head).map Text.lower = [verb, "z"]) ∧
      expression body = .ok found := by
  cases hcut : Text.cutAt? '=' line with
  | none => simp [objective, hcut, throw, throwThe, MonadExceptOf.throw] at h
  | some pair =>
    obtain ⟨head, body⟩ := pair
    cases hwords : (Text.words head).map Text.lower with
    | nil => simp [objective, hcut, hwords, throw, throwThe, MonadExceptOf.throw] at h
    | cons first others =>
      simp only [objective, hcut, hwords, List.head?_cons, List.drop_one, List.tail_cons, ne_eq,
        ite_not, throw, throwThe, MonadExceptOf.throw, bind, Except.bind, pure, Except.pure] at h
      cases hbody : (expression body : Except _ (List (String × F))) with
      | error fault =>
        rw [hbody] at h
        split_ifs at h <;> cases h
      | ok terms =>
        rw [hbody] at h
        split_ifs at h with hmax hz hmin hz
        · obtain ⟨rfl, rfl⟩ := Prod.mk.inj (Except.ok.inj h)
          exact ⟨head, body, rfl, ⟨first, by simpa [verbs] using hmax, by rw [hwords, hz]⟩, hbody⟩
        · obtain ⟨rfl, rfl⟩ := Prod.mk.inj (Except.ok.inj h)
          exact ⟨head, body, rfl, ⟨first, by simpa [verbs] using hmin, by rw [hwords, hz]⟩, hbody⟩

theorem objective_eq_ok_iff {found : List (String × ℚ)} :
    objective line = .ok (goal, found) ↔ ∃ ts, IsObjective line goal ts ∧ found = collect ts := by
  constructor
  · intro h
    obtain ⟨head, body, hcut, hhead, hbody⟩ := parts_of_objective_eq_ok h
    obtain ⟨hline, heq⟩ := Text.cutAt?_eq_some_iff.mp hcut
    obtain ⟨ts, hts, hfound⟩ := expression_eq_ok_iff.mp hbody
    exact ⟨ts, ⟨head, body, hline, heq, isHead_iff.mpr hhead, hts⟩, hfound⟩
  · rintro ⟨ts, ⟨head, body, hline, heq, hhead, hts⟩, rfl⟩
    obtain ⟨verb, hverb, hwords⟩ := isHead_iff.mp hhead
    exact objective_eq_ok (Text.cutAt?_eq_some_iff.mpr ⟨hline, heq⟩) hverb hwords hts.expression

structure RowText where
  terms : List TermText
  relation : Relation
  right : Decimal.Literal

def mark : Relation → Char
  | .equal => '='
  | .atLeast => '>'
  | .atMost => '<'

/-- An operator as long as it goes before the rest of a line. -/
def IsOperator (relation : Relation) (sign right : List Char) : Prop :=
  sign = [mark relation] ∧ right.head? ≠ some '=' ∨ sign = [mark relation, '=']

/-- The text of a constraint: terms, the first operator of the line and one number. -/
def IsConstraint (line : List Char) (row : RowText) : Prop :=
  ∃ left sign right, line = left ++ (sign ++ right) ∧ (∀ c ∈ left, isRelationChar c = false) ∧
    IsOperator row.relation sign right ∧ Spells left row.terms ∧
    Decimal.literal? (Text.trim right) = some row.right

structure RowText.Read (text : RowText) (row : Row ℚ) : Prop where
  terms : row.terms = collect text.terms
  relation : row.relation = text.relation
  bound : text.right.toRat? = some row.bound

theorem isRelationChar_mark (relation : Relation) : isRelationChar (mark relation) = true := by
  cases relation <;> rfl

theorem relation?_mark (relation : Relation) (cs : List Char) :
    relation? (mark relation :: cs) =
      some (relation, if cs.head? = some '=' then cs.drop 1 else cs) := by
  cases relation <;> rfl

theorem exists_mark_of_relation? {cs right : List Char} {relation : Relation}
    (h : relation? cs = some (relation, right)) : ∃ rest, cs = mark relation :: rest := by
  cases cs with
  | nil => exact absurd h (by simp [relation?])
  | cons c cs =>
    unfold relation? at h
    dsimp only at h
    split at h
    · obtain ⟨rfl, -⟩ := Prod.mk.inj (Option.some.inj h)
      exact ⟨cs, rfl⟩
    · obtain ⟨rfl, -⟩ := Prod.mk.inj (Option.some.inj h)
      exact ⟨cs, rfl⟩
    · obtain ⟨rfl, -⟩ := Prod.mk.inj (Option.some.inj h)
      exact ⟨cs, rfl⟩
    · exact absurd h (by simp)

theorem relation?_eq_some_iff {cs right : List Char} {relation : Relation} :
    relation? cs = some (relation, right) ↔
      ∃ sign, cs = sign ++ right ∧ IsOperator relation sign right := by
  constructor
  · intro h
    obtain ⟨rest, rfl⟩ := exists_mark_of_relation? h
    rw [relation?_mark] at h
    obtain ⟨-, rfl⟩ := Prod.mk.inj (Option.some.inj h)
    split_ifs with heq
    · obtain ⟨rest, rfl⟩ := List.head?_eq_some_iff.mp heq
      exact ⟨[mark relation, '='], rfl, .inr rfl⟩
    · exact ⟨[mark relation], rfl, .inl ⟨rfl, heq⟩⟩
  · rintro ⟨sign, rfl, ⟨rfl, heq⟩ | rfl⟩
    · rw [List.singleton_append, relation?_mark, if_neg heq]
    · rw [List.cons_append, relation?_mark]
      rfl

theorem IsOperator.head?_append {relation : Relation} {sign right : List Char}
    (h : IsOperator relation sign right) : (sign ++ right).head? = some (mark relation) := by
  rcases h with ⟨rfl, -⟩ | rfl
  · rfl
  · rfl

section Cut

variable {left sign right : List Char} {relation : Relation}

theorem span_append (hleft : ∀ c ∈ left, isRelationChar c = false)
    (hsign : IsOperator relation sign right) :
    (left ++ (sign ++ right)).takeWhile (!isRelationChar ·) = left ∧
      (left ++ (sign ++ right)).dropWhile (!isRelationChar ·) = sign ++ right := by
  have hpass : ∀ c ∈ left, (!isRelationChar c) = true := by
    intro c hc
    rw [hleft c hc]
    rfl
  have hstop : ∀ c ∈ (sign ++ right).head?, (!isRelationChar c) = false := by
    intro c hc
    rw [hsign.head?_append] at hc
    obtain rfl := Option.some.inj hc
    rw [isRelationChar_mark]
    rfl
  exact ⟨takeWhile_append_of_stop hpass hstop, dropWhile_append_of_stop hpass hstop⟩

theorem constraint_append {F : Type} [Scalar F] [Numeral F]
    (hleft : ∀ c ∈ left, isRelationChar c = false) (hsign : IsOperator relation sign right) :
    (constraint (left ++ (sign ++ right)) : Except LineFault (Row F)) =
      match expression left, Numeral.read? (Text.trim right) with
      | .error fault, _ => .error (.expression fault)
      | .ok terms, some bound => .ok ⟨terms, relation, bound⟩
      | .ok _, none => .error (.badRightSide (String.ofList (Text.trim right))) := by
  obtain ⟨htake, hdrop⟩ := span_append hleft hsign
  rw [constraint, htake, hdrop, relation?_eq_some_iff.mpr ⟨sign, rfl, hsign⟩]
  dsimp only
  cases (expression left : Except _ (List (String × F))) with
  | error fault => rfl
  | ok terms => cases (Numeral.read? (Text.trim right) : Option F) <;> rfl

theorem exists_expression_of_constraint_eq_ok {F : Type} [Scalar F] [Numeral F] {row : Row F}
    (h : constraint line = .ok row) : ∃ left, expression left = .ok row.terms := by
  simp only [constraint, bind, Except.bind, throw, throwThe, MonadExceptOf.throw] at h
  split at h
  · split at h
    · cases h
    next terms hterms =>
    split at h
    · obtain rfl := Except.ok.inj h
      refine ⟨line.takeWhile (!isRelationChar ·), ?_⟩
      cases hleft : (expression (line.takeWhile (!isRelationChar ·)) :
          Except _ (List (String × F))) with
      | error fault =>
        rw [hleft] at hterms
        cases hterms
      | ok found =>
        rw [hleft] at hterms
        exact congrArg Except.ok (Except.ok.inj hterms)
    · cases h
  · cases h

end Cut

/-- The right side of a constraint is what stands after the operator that is found first. -/
theorem IsConstraint.exists_relation? {row : RowText} (h : IsConstraint line row) :
    ∃ right, relation? (line.dropWhile (!isRelationChar ·)) = some (row.relation, right) ∧
      Decimal.literal? (Text.trim right) = some row.right := by
  obtain ⟨left, sign, right, rfl, hleft, hsign, -, hright⟩ := h
  rw [(span_append hleft hsign).2]
  exact ⟨right, relation?_eq_some_iff.mpr ⟨sign, rfl, hsign⟩, hright⟩

theorem constraint_eq_ok_iff {row : Row ℚ} :
    constraint line = .ok row ↔ ∃ text, IsConstraint line text ∧ text.Read row := by
  constructor
  · intro h
    have hcut := List.takeWhile_append_dropWhile (p := (!isRelationChar ·)) (l := line)
    have hleft : ∀ c ∈ line.takeWhile (!isRelationChar ·), isRelationChar c = false := by
      intro c hc
      simpa using List.mem_takeWhile_imp hc
    cases hrelation : relation? (line.dropWhile (!isRelationChar ·)) with
    | none => simp [constraint, hrelation, throw, throwThe, MonadExceptOf.throw] at h
    | some pair =>
      obtain ⟨relation, right⟩ := pair
      obtain ⟨sign, hline, hsign⟩ := relation?_eq_some_iff.mp hrelation
      generalize line.takeWhile (!isRelationChar ·) = left at hcut hleft
      rw [← hcut, hline, constraint_append hleft hsign] at h
      split at h
      · exact absurd h (by simp)
      · next terms bound hterms hbound =>
        obtain rfl := Except.ok.inj h
        obtain ⟨ts, hts, rfl⟩ := expression_eq_ok_iff.mp hterms
        obtain ⟨literal, hliteral, hvalue⟩ := Option.bind_eq_some_iff.mp hbound
        refine ⟨⟨ts, relation, literal⟩, ⟨left, sign, right, ?_, hleft, hsign, hts, hliteral⟩,
          rfl, rfl, hvalue⟩
        rw [← hline, hcut]
      · exact absurd h (by simp)
  · rintro ⟨text, ⟨left, sign, right, rfl, hleft, hsign, hterms, hright⟩, hread⟩
    have hbound : (Numeral.read? (Text.trim right) : Option ℚ) = some row.bound := by
      rw [← hread.bound]
      exact congrArg (Option.bind · Decimal.Literal.toRat?) hright
    rw [constraint_append hleft hsign, hterms.expression, hbound, ← hread.terms, ← hread.relation]

end Linear

end Optima
