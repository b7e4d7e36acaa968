import Optima.Proofs.Linear.Lines
import Optima.Proofs.Linear.Reading

namespace Optima.Linear

section Names

variable {n m : String} {names : List String}

theorem mem_insertName : m ∈ insertName n names ↔ m = n ∨ m ∈ names := by
  induction names with
  | nil => simp [insertName]
  | cons a names ih =>
    rw [insertName]
    split_ifs with hlt heq
    · exact List.mem_cons
    · subst heq
      simp
    · rw [List.mem_cons, ih, List.mem_cons]
      exact or_left_comm

theorem pairwise_insertName (h : names.Pairwise (· < ·)) (n : String) :
    (insertName n names).Pairwise (· < ·) := by
  induction names with
  | nil => exact List.pairwise_singleton _ n
  | cons a names ih =>
    obtain ⟨ha, hnames⟩ := List.pairwise_cons.mp h
    rw [insertName]
    split_ifs with hlt heq
    · refine List.pairwise_cons.mpr ⟨fun m hm => ?_, h⟩
      rcases List.mem_cons.mp hm with rfl | hm
      · exact hlt
      · exact hlt.trans (ha m hm)
    · exact h
    · refine List.pairwise_cons.mpr ⟨fun m hm => ?_, ih hnames⟩
      rcases mem_insertName.mp hm with rfl | hm
      · exact (lt_or_gt_of_ne heq).resolve_left hlt
      · exact ha m hm

theorem mem_foldl_insertName {sorted : List String} :
    m ∈ names.foldl (fun sorted name => insertName name sorted) sorted ↔
      m ∈ sorted ∨ m ∈ names := by
  induction names generalizing sorted with
  | nil => simp
  | cons a names ih =>
    rw [List.foldl_cons, ih, mem_insertName, List.mem_cons, or_assoc, or_left_comm]

theorem mem_sortedNames : m ∈ sortedNames names ↔ m ∈ names := by
  rw [sortedNames, mem_foldl_insertName]
  simp

theorem pairwise_sortedNames (names : List String) : (sortedNames names).Pairwise (· < ·) := by
  suffices h : ∀ sorted : List String, sorted.Pairwise (· < ·) →
      (names.foldl (fun sorted name => insertName name sorted) sorted).Pairwise (· < ·) from
    h [] .nil
  induction names with
  | nil => exact fun _ h => h
  | cons a names ih => exact fun sorted h => ih _ (pairwise_insertName h a)

theorem toUTF8_ofList (cs : List Char) :
    (String.ofList cs).toUTF8.data.toList = cs.flatMap String.utf8EncodeChar := by
  simp [List.utf8Encode]

theorem utf8EncodeChar_of_lt {c : Char} (h : c.toNat < 128) :
    String.utf8EncodeChar c = [c.val.toUInt8] := by
  apply String.utf8EncodeChar_eq_singleton
  rw [Char.utf8Size_eq_one_iff]
  exact UInt32.le_iff_toNat_le.mpr (Nat.le_of_lt_succ h)

/-- Texts of ASCII characters are ordered like their bytes. -/
theorem flatMap_utf8EncodeChar_lt {as bs : List Char} (h : as < bs) (ha : ∀ c ∈ as, c.toNat < 128)
    (hb : ∀ c ∈ bs, c.toNat < 128) :
    as.flatMap String.utf8EncodeChar < bs.flatMap String.utf8EncodeChar := by
  induction as generalizing bs with
  | nil =>
    cases bs with
    | nil => exact absurd h (by simp)
    | cons b bs =>
      rw [List.flatMap_cons, utf8EncodeChar_of_lt (hb b List.mem_cons_self)]
      exact List.nil_lt_cons _ _
  | cons a as ih =>
    cases bs with
    | nil => exact absurd h (by simp)
    | cons b bs =>
      obtain ⟨ha, has⟩ := List.forall_mem_cons.mp ha
      obtain ⟨hb, hbs⟩ := List.forall_mem_cons.mp hb
      rw [List.flatMap_cons, List.flatMap_cons, utf8EncodeChar_of_lt ha, utf8EncodeChar_of_lt hb,
        List.singleton_append, List.singleton_append, List.cons_lt_cons_iff]
      rcases List.cons_lt_cons_iff.mp h with hlt | ⟨rfl, hlt⟩
      · left
        have hval : a.val.toNat < b.val.toNat := UInt32.lt_iff_toNat_lt.mp hlt
        rw [UInt8.lt_iff_toNat_lt, UInt32.toNat_toUInt8, UInt32.toNat_toUInt8]
        have ha : a.val.toNat < 128 := ha
        have hb : b.val.toNat < 128 := hb
        omega
      · exact .inr ⟨rfl, ih hlt has hbs⟩

theorem toNat_of_isNameChar {c : Char} (h : isNameChar c = true) : c.toNat < 128 := by
  have := isNameChar_iff.mp h
  omega

theorem TermText.toUTF8_key_lt {s t : TermText} (h : s.key < t.key) :
    s.key.toUTF8.data.toList < t.key.toUTF8.data.toList := by
  rw [TermText.key, TermText.key, toUTF8_ofList, toUTF8_ofList]
  rw [TermText.key, TermText.key, String.lt_iff_toList_lt, String.toList_ofList,
    String.toList_ofList] at h
  exact flatMap_utf8EncodeChar_lt h (fun c hc => toNat_of_isNameChar (s.name_isName.nameChar c hc))
    fun c hc => toNat_of_isNameChar (t.name_isName.nameChar c hc)

end Names

section Forms

def formOf (terms : List (String × ℚ)) : LinearForm ℚ := ⟨terms.map (·.2), terms.map (·.1)⟩

theorem coefficient_formOf (terms : List (String × ℚ)) (name : String) :
    (formOf terms).coefficient name = ((terms.find? (·.1 == name)).map (·.2)).getD 0 := by
  induction terms with
  | nil => rfl
  | cons t terms ih =>
    rw [formOf, List.map_cons, List.map_cons, LinearForm.coefficient_cons, List.find?_cons]
    by_cases h : t.1 = name
    · rw [if_pos h, beq_iff_eq.mpr h]
      rfl
    · rw [if_neg h, beq_eq_false_iff_ne.mpr h]
      exact ih

theorem align_eq_readBy (names : List String) (terms : List (String × ℚ)) :
    align names terms = (formOf terms).readBy names := by
  rw [align, LinearForm.readBy]
  congr 1
  exact List.map_congr_left fun name _ => (coefficient_formOf terms name).symm

theorem eval_formOf (terms : List (String × ℚ)) (x : String → ℚ) :
    (formOf terms).eval x = value x terms := by
  rw [formOf, LinearForm.eval, List.zipWith_map, List.zipWith_self]
  rfl

theorem eval_align_collect {names : List String} (hnames : names.Nodup) {ts : List TermText}
    (hsub : ∀ t ∈ ts, t.key ∈ names) (x : String → ℚ) :
    (align names (collect ts)).eval x = textValue ts x := by
  have hlength :
      (formOf (collect ts)).coefficients.length = (formOf (collect ts)).names.length := by
    simp [formOf]
  have hmem : ∀ name ∈ (formOf (collect ts)).names, name ∈ names := by
    intro name hname
    obtain ⟨t, ht, rfl⟩ := mem_collect.mp hname
    exact hsub t ht
  rw [align_eq_readBy, LinearForm.eval_readBy,
    LinearForm.sum_coefficient hnames hlength (nodup_collect ts) hmem, eval_formOf, value_collect]

end Forms

section Programs

def contents (text : String) : List (List Char) :=
  ((Text.lines text.toList).map Text.trim).filter isContent

structure ProgramText where
  goal : Goal
  objective : List TermText
  rows : List RowText

def ProgramText.terms (d : ProgramText) : List TermText :=
  d.objective ++ d.rows.flatMap (·.terms)

/-- The text of a linear program: an objective on the first line with content, a constraint on
every other, and at least one. -/
structure ProgramText.SpelledBy (d : ProgramText) (text : String) : Prop where
  lines : ∃ first others, contents text = first :: others ∧ IsObjective first d.goal d.objective ∧
    List.Forall₂ IsConstraint others d.rows
  constrained : d.rows ≠ []

/-- No right side is the name of an infinity or of no number. -/
def BoundsFinite (text : String) : Prop :=
  ∀ line ∈ (contents text).tail, ∀ row, IsConstraint line row → ∃ k, row.right.toRat? = some k

/-- A form over some names that has the values of the terms as they are written. -/
structure IsFormOf (names : List String) (ts : List TermText) (form : LinearForm ℚ) : Prop where
  names_eq : form.names = names
  length_eq : form.coefficients.length = names.length
  eval_eq : ∀ x, form.eval x = textValue ts x

structure ProgramText.Means (d : ProgramText) (q : LinearProgram ℚ) : Prop where
  goal : q.goal = d.goal
  ascending : q.objective.names.Pairwise fun a b => a.toUTF8.data.toList < b.toUTF8.data.toList
  names : ∀ name, name ∈ q.objective.names ↔ ∃ t ∈ d.terms, t.key = name
  objective : IsFormOf q.objective.names d.objective q.objective
  constraints : List.Forall₂ (fun row c => c.relation = row.relation ∧
    row.right.toRat? = some c.bound ∧ IsFormOf q.objective.names row.terms c.toLinearForm)
    d.rows q.constraints

variable {text : String} {d : ProgramText} {q : LinearProgram ℚ} {rows : List (Row ℚ)}

theorem map_contentLines (text : String) :
    (contentLines text.toList).map (·.2) = contents text := by
  rw [contentLines, contents]
  generalize (Text.lines text.toList).map Text.trim = lines
  suffices h : ∀ start, ((lines.zipIdx start).filterMap fun p : List Char × ℕ =>
      if isContent p.1 then some (p.2, p.1) else none).map (·.2) = lines.filter isContent from
    h 1
  induction lines with
  | nil => exact fun _ => rfl
  | cons line lines ih =>
    intro start
    rw [List.zipIdx_cons, List.filterMap_cons, List.filter_cons]
    dsimp only
    split_ifs with hcontent
    · rw [List.map_cons, ih]
    · exact ih _

theorem readLine_eq_ok_iff {α : Type} {role : LineRole} {read : List Char → Except LineFault α}
    {line : ℕ × List Char} {a : α} : readLine role read line = .ok a ↔ read line.2 = .ok a := by
  rw [readLine]
  cases read line.2 <;> simp [Except.mapError]

theorem parse_eq_ok_iff {F : Type} [Scalar F] [Numeral F] {q : LinearProgram F}
    {first : ℕ × List Char} {others : List (ℕ × List Char)}
    (h : contentLines text.toList = first :: others) :
    parse text = .ok q ↔ ∃ goal terms rows, objective first.2 = .ok (goal, terms) ∧
      List.Forall₂ (fun line row => constraint line.2 = .ok row) others rows ∧ rows ≠ [] ∧
      q = assemble goal terms rows := by
  rw [parse, h]
  constructor
  · intro hq
    simp only [bind, Except.bind] at hq
    split at hq
    · cases hq
    next read hfirst =>
    obtain ⟨goal, terms⟩ := read
    dsimp only at hq
    split at hq
    · cases hq
    next rows hrows =>
    have hothers := (mapM_eq_ok_iff.mp hrows).imp fun line row => readLine_eq_ok_iff.mp
    split_ifs at hq with hempty
    obtain rfl := Except.ok.inj hq
    exact ⟨goal, terms, rows, readLine_eq_ok_iff.mp hfirst, hothers,
      List.isEmpty_iff.not.mp hempty, rfl⟩
  · rintro ⟨goal, terms, rows, hfirst, hothers, hempty, rfl⟩
    have hrows : others.mapM (readLine .constraint constraint) = .ok rows :=
      mapM_eq_ok_iff.mpr (hothers.imp fun line row => readLine_eq_ok_iff.mpr)
    have hfirst : readLine .objective objective first = .ok (goal, terms) :=
      readLine_eq_ok_iff.mpr hfirst
    simp only [hfirst, hrows, bind, Except.bind]
    rw [if_neg (List.isEmpty_iff.not.mpr hempty)]
    rfl

/-- All forms of a program that is read have the same names, all different. -/
theorem names_of_parse {F : Type} [Scalar F] [Numeral F] {q : LinearProgram F}
    (hq : parse text = .ok q) : q.objective.names.Nodup ∧
      (∀ c ∈ q.constraints, c.names = q.objective.names) ∧
      ∀ n ∈ q.objective.names, IsName n.toList := by
  cases hlines : contentLines text.toList with
  | nil =>
    rw [parse, hlines] at hq
    cases hq
  | cons first others =>
    obtain ⟨goal, terms, rows, hfirst, hothers, -, rfl⟩ := (parse_eq_ok_iff hlines).mp hq
    refine ⟨(pairwise_sortedNames _).imp fun h => h.ne, fun c hc => ?_, fun n hn => ?_⟩
    · obtain ⟨row, -, rfl⟩ := List.mem_map.mp hc
      rfl
    · have hn := mem_sortedNames.mp hn
      rw [List.map_append, List.mem_append, List.map_flatMap, List.mem_flatMap] at hn
      rcases hn with hn | ⟨row, hrow, hn⟩
      · obtain ⟨_, _, -, -, hterms⟩ := parts_of_objective_eq_ok hfirst
        exact isName_of_expression_eq_ok hterms n hn
      · obtain ⟨i, hi, rfl⟩ := List.getElem_of_mem hrow
        have hline := hothers.get (by rw [hothers.length_eq]; exact hi) hi
        obtain ⟨_, hterms⟩ := exists_expression_of_constraint_eq_ok hline
        exact isName_of_expression_eq_ok hterms n hn

/-- The names of all terms as they are read are those of the terms as they are written. -/
theorem mem_names_iff (h : List.Forall₂ RowText.Read d.rows rows) (name : String) :
    name ∈ (collect d.objective ++ rows.flatMap (·.terms)).map (·.1) ↔
      ∃ t ∈ d.terms, t.key = name := by
  have hterms : List.Forall₂ (· = ·) (d.rows.map fun row => collect row.terms)
      (rows.map (·.terms)) :=
    List.forall₂_map_left_iff.mpr (List.forall₂_map_right_iff.mpr
      (h.imp fun text row hread => hread.terms.symm))
  rw [List.forall₂_eq_eq_eq] at hterms
  have hflat : rows.flatMap (·.terms) = d.rows.flatMap fun row => collect row.terms := by
    rw [List.flatMap_def, List.flatMap_def, hterms]
  rw [hflat, List.map_append, List.mem_append, List.map_flatMap, List.mem_flatMap]
  simp only [mem_collect, ProgramText.terms, List.mem_append, List.mem_flatMap]
  constructor
  · rintro (⟨t, ht, rfl⟩ | ⟨row, hrow, t, ht, rfl⟩)
    · exact ⟨t, .inl ht, rfl⟩
    · exact ⟨t, .inr ⟨row, hrow, ht⟩, rfl⟩
  · rintro ⟨t, ht | ⟨row, hrow, ht⟩, rfl⟩
    · exact .inl ⟨t, ht, rfl⟩
    · exact .inr ⟨row, hrow, t, ht, rfl⟩

/-- What is assembled from the lines as they are read is what they stand for. -/
theorem means_assemble (h : List.Forall₂ RowText.Read d.rows rows) :
    d.Means (assemble d.goal (collect d.objective) rows) := by
  let names := sortedNames ((collect d.objective ++ rows.flatMap (·.terms)).map (·.1))
  have hmem (name : String) : name ∈ names ↔ ∃ t ∈ d.terms, t.key = name :=
    mem_sortedNames.trans (mem_names_iff h name)
  have hascending : names.Pairwise (· < ·) := pairwise_sortedNames _
  have hnodup : names.Nodup := hascending.imp fun h => h.ne
  have hform {ts : List TermText} (hts : ∀ t ∈ ts, t ∈ d.terms) :
      IsFormOf names ts (align names (collect ts)) := by
    refine ⟨rfl, List.length_map _, eval_align_collect hnodup fun t ht => ?_⟩
    exact (hmem t.key).mpr ⟨t, hts t ht, rfl⟩
  refine ⟨rfl, ?_, hmem, hform fun t ht => List.mem_append_left _ ht, ?_⟩
  · apply hascending.imp_of_mem
    intro a b ha hb hlt
    obtain ⟨s, -, rfl⟩ := (hmem a).mp ha
    obtain ⟨t, -, rfl⟩ := (hmem b).mp hb
    exact TermText.toUTF8_key_lt hlt
  · apply List.forall₂_map_right_iff.mpr
    have hrows : List.Forall₂ (fun text row => text ∈ d.rows ∧ text.Read row) d.rows rows :=
      (List.forall₂_and_left _ _).mpr ⟨fun text htext => htext, h⟩
    refine hrows.imp fun text row ⟨htext, hread⟩ => ⟨hread.relation, hread.bound, ?_⟩
    have hsub : ∀ t ∈ text.terms, t ∈ d.terms := fun t ht =>
      List.mem_append_right _ (List.mem_flatMap.mpr ⟨text, htext, ht⟩)
    dsimp only
    rw [hread.terms]
    exact hform hsub

def RowText.row (text : RowText) : Row ℚ :=
  ⟨collect text.terms, text.relation, text.right.toRat?.getD 0⟩

theorem exists_contentLines {first : List Char} {others : List (List Char)}
    (h : contents text = first :: others) : ∃ number numbered,
      contentLines text.toList = (number, first) :: numbered ∧ numbered.map (·.2) = others := by
  rw [← map_contentLines] at h
  obtain ⟨⟨number, line⟩, numbered, hlines, rfl, hothers⟩ := List.map_eq_cons_iff.mp h
  exact ⟨number, numbered, hlines, hothers⟩

/-- What spells a linear program is read as one that it spells. -/
theorem ProgramText.SpelledBy.exists_means (hd : d.SpelledBy text) (h : BoundsFinite text) :
    ∃ q : LinearProgram ℚ, parse text = .ok q ∧ d.Means q := by
  obtain ⟨⟨first, others, hcontents, hfirst, hothers⟩, hsome⟩ := hd
  obtain ⟨number, numbered, hlines, rfl⟩ := exists_contentLines hcontents
  have hread : List.Forall₂ (fun line text => IsConstraint line text ∧ text.Read text.row)
      (numbered.map (·.2)) d.rows := by
    apply ((List.forall₂_and_left _ _).mpr ⟨fun line hline => hline, hothers⟩).imp
    rintro line text ⟨hline, htext⟩
    obtain ⟨k, hk⟩ := h line (by rw [hcontents]; exact hline) text htext
    refine ⟨htext, rfl, rfl, ?_⟩
    rw [RowText.row, hk, Option.getD_some]
  have hrows : List.Forall₂ RowText.Read d.rows (d.rows.map RowText.row) := by
    have hflip : List.Forall₂ (fun text line => text.Read text.row ∧ IsConstraint line text) d.rows
        (numbered.map (·.2)) := List.Forall₂.flip (hread.imp fun line text h => ⟨h.2, h.1⟩)
    apply List.forall₂_map_right_iff.mpr
    exact List.forall₂_same.mpr ((List.forall₂_and_left _ _).mp hflip).1
  have hconstraints : List.Forall₂ (fun line row => constraint line.2 = .ok row) numbered
      (d.rows.map RowText.row) := by
    apply List.forall₂_map_right_iff.mpr
    apply (List.forall₂_map_left_iff.mp hread).imp
    rintro line text ⟨htext, hrow⟩
    exact constraint_eq_ok_iff.mpr ⟨text, htext, hrow⟩
  refine ⟨_, (parse_eq_ok_iff hlines).mpr
    ⟨d.goal, collect d.objective, _, ?_, hconstraints, ?_, rfl⟩, means_assemble hrows⟩
  · exact objective_eq_ok_iff.mpr ⟨d.objective, hfirst, rfl⟩
  · exact List.map_eq_nil_iff.not.mpr hsome

theorem exists_spelledBy (hq : parse text = .ok q) : ∃ d : ProgramText, d.SpelledBy text := by
  cases hlines : contentLines text.toList with
  | nil =>
    rw [parse, hlines] at hq
    cases hq
  | cons first others =>
    obtain ⟨goal, terms, rows, hfirst, hothers, hsome, -⟩ := (parse_eq_ok_iff hlines).mp hq
    obtain ⟨objective, hobjective, -⟩ := objective_eq_ok_iff.mp hfirst
    have hpairs := hothers.imp fun line row => constraint_eq_ok_iff.mp
    obtain ⟨texts, htexts, hrows⟩ := forall₂_exists_iff.mp hpairs
    have hcontents : contents text = first.2 :: others.map (·.2) := by
      rw [← map_contentLines, hlines, List.map_cons]
    refine ⟨⟨goal, objective, texts⟩, ⟨first.2, _, hcontents, hobjective,
      List.forall₂_map_left_iff.mpr htexts⟩, ?_⟩
    rintro rfl
    cases hrows
    exact hsome rfl

/-- A text with finite right sides is read exactly when it spells a linear program, and as the
program that it spells. -/
theorem parse_eq_ok_iff_spelledBy (h : BoundsFinite text) :
    ((∃ q : LinearProgram ℚ, parse text = .ok q) ↔ ∃ d : ProgramText, d.SpelledBy text) ∧
      ∀ (q : LinearProgram ℚ) (d : ProgramText), parse text = .ok q → d.SpelledBy text →
        d.Means q := by
  refine ⟨⟨fun ⟨q, hq⟩ => exists_spelledBy hq, fun ⟨d, hd⟩ => ?_⟩, fun q d hq hd => ?_⟩
  · obtain ⟨q, hq, -⟩ := hd.exists_means h
    exact ⟨q, hq⟩
  · obtain ⟨q', hq', hmeans⟩ := hd.exists_means h
    obtain rfl := Except.ok.inj (hq.symm.trans hq')
    exact hmeans

def letterTerm (lead digits : List Char) (letter : Char) (k : ℚ)
    (hlead : ∀ c ∈ lead, isLead c = true) (hk : Factor digits k)
    (hletter : letter.isAlpha = true) : TermText where
  lead := lead
  digits := digits
  gap := []
  name := [letter]
  factor := k
  lead_isLead := hlead
  digits_factor := hk
  gap_isBlank := List.forall_mem_nil _
  name_isName := ⟨⟨letter, rfl, hletter⟩, by simpa using isNameChar_of_isAlpha hletter⟩

def room : String := "Max z = 2x - y\n\n// room\nx <= 4"

def roomText : ProgramText where
  goal := .maximize
  objective := [
    letterTerm [' '] ['2'] 'x' 2 (by simp [isLead, Text.isBlank]) (.whole (by simp) (by simp)) rfl,
    letterTerm [' ', '-', ' '] [] 'y' 1 (by simp [isLead, Text.isBlank, isSign]) .absent rfl]
  rows := [⟨[letterTerm [] [] 'x' 1 (List.forall_mem_nil _) .absent rfl], .atMost,
    .number false 4 0⟩]

theorem contents_room : contents room =
    [['M', 'a', 'x', ' ', 'z', ' ', '=', ' ', '2', 'x', ' ', '-', ' ', 'y'],
      ['x', ' ', '<', '=', ' ', '4']] := by
  simp [contents, room, Text.lines, Text.pieces, Text.trim, Text.trimLeft, Text.isBlank, isContent,
    List.isPrefixOf]

theorem spelledBy_room : roomText.SpelledBy room := by
  have hobjective : Spells [' ', '2', 'x', ' ', '-', ' ', 'y'] roomText.objective := by
    refine ⟨List.cons_ne_nil _ _, ?_, [], List.forall_mem_nil _, rfl⟩
    intro t ht
    obtain rfl := List.mem_singleton.mp ht
    exact ⟨'-', .tail _ (.head _), rfl⟩
  have hhead : IsHead .maximize ['M', 'a', 'x', ' ', 'z', ' '] :=
    ⟨[], ['M', 'a', 'x'], [' '], ['z'], [' '], rfl, by simp [Text.isBlank], List.cons_ne_nil _ _,
      .head _, rfl⟩
  have hrow : Spells ['x', ' '] [letterTerm [] [] 'x' 1 (List.forall_mem_nil _) .absent rfl] :=
    ⟨List.cons_ne_nil _ _, List.forall_mem_nil _, [' '], by simp [Text.isBlank], rfl⟩
  refine ⟨⟨_, _, contents_room, ?_, .cons ?_ .nil⟩, List.cons_ne_nil _ _⟩
  · exact ⟨_, _, rfl, by simp, hhead, hobjective⟩
  · exact ⟨_, ['<', '='], [' ', '4'], rfl, by simp [isRelationChar], .inr rfl, hrow, rfl⟩

theorem boundsFinite_room : BoundsFinite room := by
  intro line hline row hrow
  rw [contents_room] at hline
  obtain rfl := List.mem_singleton.mp hline
  obtain ⟨right, hright, hliteral⟩ := hrow.exists_relation?
  have hcut : relation? (['x', ' ', '<', '=', ' ', '4'].dropWhile (!isRelationChar ·)) =
      some (.atMost, [' ', '4']) := by
    simp [isRelationChar, relation?]
  rw [hcut] at hright
  obtain ⟨-, rfl⟩ := Prod.mk.inj (Option.some.inj hright)
  have hfour : .number false 4 0 = row.right := Option.some.inj hliteral
  exact ⟨_, by rw [← hfour, Decimal.Literal.toRat?]⟩

theorem room_read : BoundsFinite room ∧
    ∃ q : LinearProgram ℚ, parse room = .ok q ∧ roomText.Means q := by
  obtain ⟨hiff, hmeans⟩ := parse_eq_ok_iff_spelledBy boundsFinite_room
  obtain ⟨q, hq⟩ := hiff.mpr ⟨_, spelledBy_room⟩
  exact ⟨boundsFinite_room, q, hq, hmeans q _ hq spelledBy_room⟩

end Programs

end Optima.Linear
