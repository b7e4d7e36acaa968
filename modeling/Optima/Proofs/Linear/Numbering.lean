import Mathlib
import Optima.Proofs.Linear.Lines

namespace Optima

def ParseError.renumber (f : ℕ → ℕ) : ParseError → ParseError
  | .badLine role fault number line => .badLine role fault (f number) line
  | e => e

namespace Linear

variable {text text' : String} {line : List Char} {lines before after : List (List Char)}
  {f g : ℕ → ℕ} {i j : ℕ}

/-- The lines of a text. A line break at the end does not begin another one. -/
def linesOf (text : String) : List (List Char) :=
  if (Text.lines text.toList).getLast? = some [] then (Text.lines text.toList).dropLast
  else Text.lines text.toList

/-- Lines that are blank or a comment are skipped. -/
def Skipped (line : List Char) : Prop := isContent (Text.trim line) = false

instance : DecidablePred Skipped := fun line =>
  inferInstanceAs (Decidable (isContent (Text.trim line) = false))

/-- The lines that are not skipped, each with the number of its position. -/
def numbered (number : ℕ → ℕ) : List (List Char) → List (ℕ × List Char)
  | [] => []
  | line :: lines =>
    if Skipped line then numbered (fun i => number (i + 1)) lines
    else (number 0, Text.trim line) :: numbered (fun i => number (i + 1)) lines

section Numbers

theorem numbered_append (f : ℕ → ℕ) (before after : List (List Char)) :
    numbered f (before ++ after) =
      numbered f before ++ numbered (fun i => f (i + before.length)) after := by
  induction before generalizing f with
  | nil => rfl
  | cons line before ih =>
    rw [List.cons_append, numbered, numbered, ih]
    split_ifs
    · simp only [List.length_cons, Nat.add_assoc]
    · simp only [List.length_cons, List.cons_append, Nat.add_assoc]

theorem numbered_of_skipped (f : ℕ → ℕ) (h : ∀ line ∈ lines, Skipped line) :
    numbered f lines = [] := by
  induction lines generalizing f with
  | nil => rfl
  | cons line lines ih =>
    obtain ⟨hline, hlines⟩ := List.forall_mem_cons.mp h
    rw [numbered, if_pos hline, ih _ hlines]

theorem numbered_comp (g : ℕ → ℕ) (f : ℕ → ℕ) (lines : List (List Char)) :
    numbered (fun i => g (f i)) lines = (numbered f lines).map fun a => (g a.1, a.2) := by
  induction lines generalizing f with
  | nil => rfl
  | cons line lines ih =>
    rw [numbered, numbered, ih]
    split_ifs
    · rfl
    · rfl

theorem contentLines_eq_numbered (text : String) :
    contentLines text.toList = numbered (· + 1) (linesOf text) := by
  have hall (lines : List (List Char)) (k : ℕ) : ((lines.map Text.trim).zipIdx k).filterMap
      (fun a => if isContent a.1 then some (a.2, a.1) else none) = numbered (· + k) lines := by
    induction lines generalizing k with
    | nil => rfl
    | cons line lines ih =>
      rw [List.map_cons, List.zipIdx_cons, List.filterMap_cons, ih, numbered]
      simp only [Nat.add_assoc, Nat.add_comm 1 k, Nat.zero_add]
      by_cases hskip : Skipped line
      · rw [if_neg (ne_true_of_eq_false hskip), if_pos hskip]
      · rw [if_pos (eq_true_of_ne_false hskip), if_neg hskip]
  have hlines : contentLines text.toList = numbered (· + 1) (Text.lines text.toList) :=
    hall (Text.lines text.toList) 1
  rw [hlines, linesOf]
  split_ifs with hlast
  · obtain ⟨init, hinit⟩ := List.getLast?_eq_some_iff.mp hlast
    have hempty : ∀ line ∈ [([] : List Char)], Skipped line := by decide
    rw [hinit, List.dropLast_concat, numbered_append, numbered_of_skipped _ hempty,
      List.append_nil]
  · rfl

end Numbers

section Insertion

/-- The lines with further ones put in before each position and at the end. -/
def insertLines (block : ℕ → List (List Char)) : List (List Char) → List (List Char)
  | [] => block 0
  | line :: lines => block 0 ++ line :: insertLines (fun i => block (i + 1)) lines

/-- Lines that are skipped shift the numbers of those after them. -/
theorem numbered_insertLines {block : ℕ → List (List Char)}
    (h : ∀ i, ∀ line ∈ block i, Skipped line) (f : ℕ → ℕ) (lines : List (List Char)) :
    numbered f (insertLines block lines) =
      numbered (fun i => f (i + ∑ k ∈ Finset.range (i + 1), (block k).length)) lines := by
  induction lines generalizing block f with
  | nil => exact numbered_of_skipped f (h 0)
  | cons line lines ih =>
    rw [insertLines, numbered_append, numbered_of_skipped f (h 0), List.nil_append, numbered,
      numbered, ih fun i => h (i + 1)]
    have hshift (i : ℕ) : i + ∑ k ∈ Finset.range (i + 1), (block (k + 1)).length + 1 +
        (block 0).length = i + 1 + ∑ k ∈ Finset.range (i + 1 + 1), (block k).length := by
      rw [Finset.sum_range_succ' _ (i + 1)]
      ring
    simp only [hshift, Finset.range_one, Finset.sum_singleton, zero_add]

theorem readLine_renumber {α : Type} (role : LineRole) (read : List Char → Except LineFault α)
    (g : ℕ → ℕ) (a : ℕ × List Char) :
    readLine role read (g a.1, a.2) = (readLine role read a).mapError (.renumber g) := by
  rw [readLine, readLine]
  cases read a.2 <;> rfl

variable {F : Type} [Scalar F] [Numeral F]

/-- A text is read by its lines with content. Their numbers occur in errors only. -/
theorem parse_renumber (h : contentLines text'.toList =
    (contentLines text.toList).map fun a => (g a.1, a.2)) :
    (parse text' : Except ParseError (LinearProgram F)) =
      (parse text).mapError (.renumber g) := by
  rw [parse, parse, h]
  cases contentLines text.toList with
  | nil => rfl
  | cons first others =>
    simp only [List.map_cons, List.mapM_map, readLine_renumber, Function.comp_def, mapM_mapError]
    cases (readLine .objective objective first : Except ParseError (Goal × List (String × F))) with
    | error e => rfl
    | ok found =>
      cases (others.mapM (readLine .constraint constraint) : Except ParseError (List (Row F))) with
      | error e => rfl
      | ok rows =>
        cases rows with
        | nil => rfl
        | cons row rows => rfl

theorem parse_insertLines {block : ℕ → List (List Char)}
    (hblock : ∀ i, ∀ line ∈ block i, Skipped line)
    (hlines : linesOf text' = insertLines block (linesOf text)) :
    (parse text' : Except ParseError (LinearProgram F)) =
      (parse text).mapError (.renumber fun k => k + ∑ i ∈ Finset.range k, (block i).length) := by
  apply parse_renumber
  rw [contentLines_eq_numbered, contentLines_eq_numbered, hlines, numbered_insertLines hblock,
    ← numbered_comp (fun k => k + ∑ i ∈ Finset.range k, (block i).length)]
  congr 1
  exact funext fun i => Nat.add_right_comm _ _ 1

end Insertion

section Faults

variable (F : Type) [Scalar F] [Numeral F]

def reads : LineRole → List Char → Bool
  | .objective, line => (objective line : Except LineFault (Goal × List (String × F))).isOk
  | .constraint, line => (constraint line : Except LineFault (Row F)).isOk

/-- The line at a position is not skipped and cannot be read in a role. -/
def InvalidAs (role : LineRole) (lines : List (List Char)) (i : ℕ) : Prop :=
  ∃ line, lines[i]? = some line ∧ ¬Skipped line ∧ reads F role (Text.trim line) = false

/-- The first line that is not skipped is the objective, every further one a constraint. -/
def roleAt (lines : List (List Char)) (i : ℕ) : LineRole :=
  if ∀ line ∈ lines.take i, Skipped line then .objective else .constraint

def Invalid (lines : List (List Char)) (i : ℕ) : Prop := InvalidAs F (roleAt lines i) lines i

def FirstInvalid (lines : List (List Char)) (i : ℕ) : Prop :=
  Invalid F lines i ∧ ∀ j < i, ¬Invalid F lines j

theorem isOk_iff {ε α : Type} {x : Except ε α} : x.isOk = true ↔ ∃ a, x = .ok a := by
  cases x <;> simp [Except.isOk, Except.toBool]

/-- Over the rationals, the lines that can be read are those of the form of their role. -/
theorem reads_objective_iff :
    reads ℚ .objective line = true ↔ ∃ goal ts, IsObjective line goal ts := by
  rw [reads, isOk_iff]
  constructor
  · rintro ⟨found, hread⟩
    obtain ⟨ts, hts, -⟩ := objective_eq_ok_iff.mp hread
    exact ⟨found.1, ts, hts⟩
  · rintro ⟨goal, ts, hts⟩
    exact ⟨_, objective_eq_ok_iff.mpr ⟨ts, hts, rfl⟩⟩

theorem reads_constraint_iff : reads ℚ .constraint line = true ↔
    ∃ row, IsConstraint line row ∧ ∃ bound : ℚ, row.right.toRat? = some bound := by
  rw [reads, isOk_iff]
  constructor
  · rintro ⟨found, hread⟩
    obtain ⟨row, hrow, hfound⟩ := constraint_eq_ok_iff.mp hread
    exact ⟨row, hrow, found.bound, hfound.bound⟩
  · rintro ⟨row, hrow, bound, hbound⟩
    exact ⟨⟨collect row.terms, row.relation, bound⟩,
      constraint_eq_ok_iff.mpr ⟨row, hrow, rfl, rfl, hbound⟩⟩

variable {F} {first : List Char} {e : ParseError}

theorem FirstInvalid.unique (hi : FirstInvalid F lines i) (hj : FirstInvalid F lines j) :
    i = j := by
  rcases lt_trichotomy i j with hlt | heq | hgt
  · exact absurd hi.1 (hj.2 i hlt)
  · exact heq
  · exact absurd hj.1 (hi.2 j hgt)

theorem invalidAs_cons_zero {role : LineRole} : InvalidAs F role (line :: lines) 0 ↔
    ¬Skipped line ∧ reads F role (Text.trim line) = false := by
  simp [InvalidAs]

theorem lines_cases (lines : List (List Char)) : (∀ line ∈ lines, Skipped line) ∨
    ∃ before first after, lines = before ++ first :: after ∧ (∀ line ∈ before, Skipped line) ∧
      ¬Skipped first := by
  induction lines with
  | nil => exact .inl fun _ h => absurd h List.not_mem_nil
  | cons line lines ih =>
    by_cases hskip : Skipped line
    · rcases ih with hall | ⟨before, first, after, rfl, hbefore, hfirst⟩
      · exact .inl (List.forall_mem_cons.mpr ⟨hskip, hall⟩)
      · exact .inr ⟨line :: before, first, after, rfl,
          List.forall_mem_cons.mpr ⟨hskip, hbefore⟩, hfirst⟩
    · exact .inr ⟨[], line, lines, rfl, fun _ h => absurd h List.not_mem_nil, hskip⟩

theorem readLine_cases {α : Type} (role : LineRole) (read : List Char → Except LineFault α)
    (a : ℕ × List Char) :
    (∃ x, readLine role read a = .ok x ∧ (read a.2).isOk = true) ∨
      ∃ e, readLine role read a = .error e ∧ e.line? = some a.1 ∧ (read a.2).isOk = false := by
  rw [readLine]
  cases read a.2 with
  | error fault => exact .inr ⟨_, rfl, rfl, rfl⟩
  | ok x => exact .inl ⟨x, rfl, rfl⟩

/-- Constraints are read one by one up to the first that cannot be. -/
theorem mapM_numbered_cases (f : ℕ → ℕ) (lines : List (List Char)) :
    (∃ rows, (numbered f lines).mapM (readLine .constraint (constraint (F := F))) = .ok rows ∧
      ∀ i, ¬InvalidAs F .constraint lines i) ∨
    ∃ e i, (numbered f lines).mapM (readLine .constraint (constraint (F := F))) = .error e ∧
      e.line? = some (f i) ∧ InvalidAs F .constraint lines i ∧
      ∀ j < i, ¬InvalidAs F .constraint lines j := by
  induction lines generalizing f with
  | nil => exact .inl ⟨[], rfl, fun i h => by simp [InvalidAs] at h⟩
  | cons line lines ih =>
    have hrest := ih fun i => f (i + 1)
    rw [numbered]
    by_cases hskip : Skipped line
    · rw [if_pos hskip]
      have hzero : ¬InvalidAs F .constraint (line :: lines) 0 := fun h =>
        (invalidAs_cons_zero.mp h).1 hskip
      rcases hrest with ⟨rows, hrows, hall⟩ | ⟨e, i, he, hi, hinvalid, hbefore⟩
      · exact .inl ⟨rows, hrows, fun i => i.casesOn hzero hall⟩
      · exact .inr ⟨e, i + 1, he, hi, hinvalid, Nat.forall_lt_succ_left.mpr ⟨hzero, hbefore⟩⟩
    · rw [if_neg hskip, List.mapM_cons]
      rcases readLine_cases .constraint (constraint (F := F)) (f 0, Text.trim line) with
        ⟨row, hline, hread⟩ | ⟨e, hline, hnumber, hread⟩
      · have hzero : ¬InvalidAs F .constraint (line :: lines) 0 := fun h =>
          Bool.false_ne_true ((invalidAs_cons_zero.mp h).2.symm.trans hread)
        rcases hrest with ⟨rows, hrows, hall⟩ | ⟨e, i, he, hi, hinvalid, hbefore⟩
        · refine .inl ⟨row :: rows, ?_, fun i => i.casesOn hzero hall⟩
          rw [hline, hrows]
          rfl
        · refine .inr ⟨e, i + 1, ?_, hi, hinvalid, Nat.forall_lt_succ_left.mpr ⟨hzero, hbefore⟩⟩
          rw [hline, he]
          rfl
      · refine .inr ⟨e, 0, ?_, hnumber, invalidAs_cons_zero.mpr ⟨hskip, hread⟩, by simp⟩
        rw [hline]
        rfl

section Positions

variable (hbefore : ∀ line ∈ before, Skipped line) (hfirst : ¬Skipped first)
include hbefore

theorem not_invalid_of_lt (hi : i < before.length) : ¬Invalid F (before ++ after) i := by
  rintro ⟨line, hline, hskip, -⟩
  rw [List.getElem?_append_left hi] at hline
  exact hskip (hbefore line (List.mem_of_getElem? hline))

include hfirst

theorem numbered_first (f : ℕ → ℕ) : numbered f (before ++ first :: after) =
    (f before.length, Text.trim first) ::
      numbered (fun i => f (before.length + 1 + i)) after := by
  have hshift (i : ℕ) : i + 1 + before.length = before.length + 1 + i := by omega
  rw [numbered_append, numbered_of_skipped f hbefore, numbered, if_neg hfirst]
  simp only [hshift, List.nil_append, Nat.zero_add]

theorem invalid_first_iff : Invalid F (before ++ first :: after) before.length ↔
    reads F .objective (Text.trim first) = false := by
  have hrole : roleAt (before ++ first :: after) before.length = .objective := by
    rw [roleAt, List.take_left, if_pos hbefore]
  rw [Invalid, hrole, InvalidAs, List.getElem?_append_right le_rfl, Nat.sub_self]
  simp [hfirst]

omit hbefore in
theorem invalid_after_iff : Invalid F (before ++ first :: after) (before.length + 1 + i) ↔
    InvalidAs F .constraint after i := by
  have hrole : roleAt (before ++ first :: after) (before.length + 1 + i) = .constraint := by
    rw [roleAt, if_neg]
    intro hall
    apply hfirst (hall first _)
    rw [Nat.add_assoc, Nat.add_comm 1 i, List.take_length_add_append, List.take_succ_cons]
    simp
  rw [Invalid, hrole, InvalidAs, Nat.add_assoc, List.getElem?_append_right (Nat.le_add_right _ _),
    Nat.add_sub_cancel_left, Nat.add_comm 1 i, List.getElem?_cons_succ]
  rfl

theorem not_invalid_of_first (hread : reads F .objective (Text.trim first) = true)
    (hafter : ∀ j < i, ¬InvalidAs F .constraint after j) :
    ∀ j < before.length + 1 + i, ¬Invalid F (before ++ first :: after) j := by
  intro j hj
  rcases lt_trichotomy j before.length with hlt | rfl | hgt
  · exact not_invalid_of_lt hbefore hlt
  · rw [invalid_first_iff hbefore hfirst, hread]
    exact Bool.true_eq_false.mp
  · obtain ⟨k, rfl⟩ := Nat.exists_eq_add_of_le (Nat.succ_le_of_lt hgt)
    exact (invalid_after_iff hfirst).not.mpr (hafter k (by omega))

end Positions

/-- An error is about the first invalid line, or the program is too short. -/
theorem parse_error_cases (h : (parse text : Except ParseError (LinearProgram F)) = .error e) :
    (∃ i, e.line? = some (i + 1) ∧ FirstInvalid F (linesOf text) i) ∨
      e.line? = none ∧ ∀ i, ¬Invalid F (linesOf text) i := by
  rw [parse, contentLines_eq_numbered] at h
  rcases lines_cases (linesOf text) with hall | ⟨before, first, after, heq, hbefore, hfirst⟩
  · rw [numbered_of_skipped _ hall] at h
    obtain rfl := Except.error.inj h
    refine .inr ⟨rfl, fun i hi => ?_⟩
    obtain ⟨line, hline, hskip, -⟩ := hi
    exact hskip (hall line (List.mem_of_getElem? hline))
  · rw [heq, numbered_first hbefore hfirst] at h
    rw [heq]
    dsimp only at h
    rcases readLine_cases .objective (objective (F := F)) (before.length + 1, Text.trim first) with
      ⟨found, hline, hread⟩ | ⟨e', hline, hnumber, hread⟩
    · rw [hline] at h
      rcases mapM_numbered_cases (F := F) (fun i => before.length + 1 + i + 1) after with
        ⟨rows, hrows, hall⟩ | ⟨e', i, he, hi, hinvalid, hnone⟩
      · rw [hrows] at h
        refine .inr ⟨?_, fun j => not_invalid_of_first (i := j + 1) hbefore hfirst hread
          (fun j _ => hall j) j (by omega)⟩
        cases rows with
        | nil =>
          obtain rfl := Except.error.inj h
          rfl
        | cons row rows => cases h
      · rw [he] at h
        obtain rfl := Except.error.inj h
        exact .inl ⟨before.length + 1 + i, hi, (invalid_after_iff hfirst).mpr hinvalid,
          not_invalid_of_first hbefore hfirst hread hnone⟩
    · rw [hline] at h
      obtain rfl := Except.error.inj h
      exact .inl ⟨before.length, hnumber, (invalid_first_iff hbefore hfirst).mpr hread,
        fun j => not_invalid_of_lt hbefore⟩

/-- The line number is known exactly where a line is invalid. -/
theorem line?_iff_of_parse (h : (parse text : Except ParseError (LinearProgram F)) = .error e) :
    (∀ i, e.line? = some (i + 1) ↔ FirstInvalid F (linesOf text) i) ∧
      (e.line? = none ↔ ∀ i, ¬Invalid F (linesOf text) i) := by
  rcases parse_error_cases h with ⟨i, hi, hfirst⟩ | ⟨hnone, hall⟩
  · rw [hi]
    refine ⟨fun j => ⟨fun hij => ?_, fun hj => ?_⟩, ?_⟩
    · obtain rfl : i = j := by simpa using hij
      exact hfirst
    · rw [hfirst.unique hj]
    · exact iff_of_false (by simp) fun hall => hall i hfirst.1
  · rw [hnone]
    exact ⟨fun j => iff_of_false (by simp) fun hj => hall j hj.1, iff_of_true rfl hall⟩

/-- The line number of an error is that of the first invalid line, where there is one. Further
lines that are skipped change nothing but the number, by how many go before the line. -/
theorem line_of_parse_error (text : String) :
    (∀ e, (parse text : Except ParseError (LinearProgram F)) = .error e →
      (∀ i, e.line? = some (i + 1) ↔ FirstInvalid F (linesOf text) i) ∧
      (e.line? = none ↔ ∀ i, ¬Invalid F (linesOf text) i)) ∧
    ∀ (block : ℕ → List (List Char)) (text' : String),
      (∀ i, ∀ line ∈ block i, Skipped line) →
      linesOf text' = insertLines block (linesOf text) →
      (parse text' : Except ParseError (LinearProgram F)) =
        (parse text).mapError
          (.renumber fun k => k + ∑ i ∈ Finset.range k, (block i).length) := by
  constructor
  · intro e he
    exact line?_iff_of_parse he
  · intro block text' hblock hlines
    exact parse_insertLines hblock hlines

end Faults

section Example

def gap : String := "max z = x\n\nx 4"

/-- The same lines with a comment at the start and a blank line before the last. -/
def annotatedGap : String := "// plan\nmax z = x\n\n \nx 4\n"

def annotation : ℕ → List (List Char)
  | 0 => ["// plan".toList]
  | 2 => [[' ']]
  | _ => []

theorem parse_gap : (parse gap : Except ParseError (LinearProgram ℚ)) =
    .error (.badLine .constraint .noRelation 3 "x 4") := by
  cbv

theorem skipped_annotation (i : ℕ) (line : List Char) (hline : line ∈ annotation i) :
    Skipped line := by
  unfold annotation at hline
  split at hline
  · obtain rfl := List.mem_singleton.mp hline
    decide +kernel
  · obtain rfl := List.mem_singleton.mp hline
    decide +kernel
  · exact absurd hline List.not_mem_nil

theorem gap_error_line : FirstInvalid ℚ (linesOf gap) 2 ∧
    linesOf annotatedGap = insertLines annotation (linesOf gap) ∧
    (parse annotatedGap : Except ParseError (LinearProgram ℚ)) =
      .error (.badLine .constraint .noRelation 5 "x 4") := by
  obtain ⟨hline, hshift⟩ := line_of_parse_error (F := ℚ) gap
  have hlines : linesOf annotatedGap = insertLines annotation (linesOf gap) := by decide +kernel
  refine ⟨((hline _ parse_gap).1 2).mp rfl, hlines, ?_⟩
  rw [hshift annotation annotatedGap skipped_annotation hlines, parse_gap]
  rfl

end Example

end Linear

end Optima
