import Mathlib
import Optima.Proofs.Transport.Search

namespace Optima

def Cell.line (c : Cell) (alongRow : Bool) : ℕ ⊕ ℕ := if alongRow then .inl c.row else .inr c.column

/-- No cell joins lines that the others join already. -/
def Untied (cells : List Cell) : Prop :=
  ∀ d ∈ cells, ∃ f : ℕ ⊕ ℕ → ℚ,
    (∀ e ∈ cells, e ≠ d → f (.inl e.row) = f (.inr e.column)) ∧ f (.inl d.row) ≠ f (.inr d.column)

/-- Rows and columns, joined by cells. -/
def lineGraph (m n : ℕ) (cells : List Cell) : SimpleGraph (Fin m ⊕ Fin n) where
  Adj
    | .inl i, .inr j | .inr j, .inl i => ⟨i, j⟩ ∈ cells
    | _, _ => False
  symm := ⟨fun a b h => by cases a <;> cases b <;> exact h⟩
  loopless := ⟨fun a h => by cases a <;> exact h⟩

section LineGraph

variable {m n : ℕ} {cells : List Cell} {a b : Fin m ⊕ Fin n}

def toLine : Fin m ⊕ Fin n → ℕ ⊕ ℕ := Sum.map Fin.val Fin.val

theorem toLine_injective : Function.Injective (toLine : Fin m ⊕ Fin n → ℕ ⊕ ℕ) :=
  Sum.map_injective.mpr ⟨Fin.val_injective, Fin.val_injective⟩

theorem exists_cell_of_adj (h : (lineGraph m n cells).Adj a b) :
    ∃ c ∈ cells, s(toLine a, toLine b) = s(.inl c.row, .inr c.column) := by
  cases a with
  | inl i =>
    cases b with
    | inl k => exact absurd h id
    | inr j => exact ⟨⟨i, j⟩, h, rfl⟩
  | inr j =>
    cases b with
    | inl i => exact ⟨⟨i, j⟩, h, Sym2.eq_swap⟩
    | inr k => exact absurd h id

/-- Values that are the same across all cells but that of one pair of lines are the same at lines
that can be reached without it. -/
theorem eq_of_reachable {f : ℕ ⊕ ℕ → ℚ} {d : Cell}
    (hf : ∀ e ∈ cells, e ≠ d → f (.inl e.row) = f (.inr e.column))
    (hd : s(toLine a, toLine b) = s(.inl d.row, .inr d.column)) {x y : Fin m ⊕ Fin n}
    (h : ((lineGraph m n cells).deleteEdges {s(a, b)}).Reachable x y) :
    f (toLine x) = f (toLine y) := by
  rw [SimpleGraph.reachable_iff_reflTransGen] at h
  induction h with
  | refl => rfl
  | @tail y z _ hyz ih =>
    rw [SimpleGraph.deleteEdges_adj, Set.mem_singleton_iff] at hyz
    obtain ⟨c, hc, hends⟩ := exists_cell_of_adj hyz.1
    have hcd : c ≠ d := by
      rintro rfl
      exact hyz.2 (Sym2.map.injective toLine_injective (hends.trans hd.symm))
    have heq := hf c hc hcd
    rw [ih]
    rcases Sym2.eq_iff.mp hends with ⟨hy, hz⟩ | ⟨hy, hz⟩
    · rw [hy, hz, heq]
    · rw [hy, hz, heq]

theorem isAcyclic_lineGraph (h : Untied cells) : (lineGraph m n cells).IsAcyclic := by
  rw [SimpleGraph.isAcyclic_iff_forall_adj_isBridge]
  intro a b hab
  rw [SimpleGraph.isBridge_iff]
  intro hreach
  obtain ⟨d, hd, hends⟩ := exists_cell_of_adj hab
  obtain ⟨f, hothers, hf⟩ := h d hd
  have heq := eq_of_reachable hothers hends hreach
  rcases Sym2.eq_iff.mp hends with ⟨ha, hb⟩ | ⟨ha, hb⟩
  · rw [ha, hb] at heq
    exact hf heq
  · rw [ha, hb] at heq
    exact hf heq.symm

/-- Cells that tie all lines together connect them. -/
theorem connected_lineGraph {p : TransportProblem ℚ} (hm : 0 < p.sourceCount)
    (h : p.Spans cells)
    (hinside : ∀ c ∈ cells, c.row < p.sourceCount ∧ c.column < p.destinationCount) :
    (lineGraph p.sourceCount p.destinationCount cells).Connected := by
  have htoLine (x : Fin p.sourceCount ⊕ Fin p.destinationCount) : toLine x ∈ p.lines := by
    cases x with
    | inl i => exact TransportProblem.inl_mem_lines.mpr i.isLt
    | inr j => exact TransportProblem.inr_mem_lines.mpr j.isLt
  have : Nonempty (Fin p.sourceCount ⊕ Fin p.destinationCount) := ⟨.inl ⟨0, hm⟩⟩
  refine ⟨fun a b => ?_⟩
  -- both lines of a cell can be reached, or neither
  let Reached (l : ℕ ⊕ ℕ) : Prop := ∃ x, toLine x = l ∧
    (lineGraph p.sourceCount p.destinationCount cells).Reachable a x
  have hcells (c : Cell) (hc : c ∈ cells) : Reached (.inl c.row) ↔ Reached (.inr c.column) := by
    obtain ⟨hi, hj⟩ := hinside c hc
    have hadj : (lineGraph p.sourceCount p.destinationCount cells).Adj
        (.inl ⟨c.row, hi⟩) (.inr ⟨c.column, hj⟩) := hc
    constructor
    · rintro ⟨x, hx, hreach⟩
      obtain rfl : x = .inl ⟨c.row, hi⟩ := toLine_injective hx
      exact ⟨_, rfl, hreach.trans hadj.reachable⟩
    · rintro ⟨x, hx, hreach⟩
      obtain rfl : x = .inr ⟨c.column, hj⟩ := toLine_injective hx
      exact ⟨_, rfl, hreach.trans hadj.symm.reachable⟩
  obtain ⟨x, hx, hreach⟩ := h.forall_lines (P := Reached) hcells (htoLine a) ⟨a, rfl, .rfl⟩
    (toLine b) (htoLine b)
  exact toLine_injective hx ▸ hreach

end LineGraph

namespace Transport

/-- Cells that share their row and their column with the next one in turn. -/
def Alternates : Bool → List Cell → Prop
  | _, [] | _, [_] => True
  | alongRow, c :: d :: cells =>
    c.line alongRow = d.line alongRow ∧ Alternates (!alongRow) (d :: cells)

/-- Distinct cells around which rows and columns are shared in turn, starting with a row. -/
structure ClosedLoop (first : Cell) (rest : List Cell) : Prop where
  nodup : (first :: rest).Nodup
  even : (first :: rest).length % 2 = 0
  alternates : Alternates true (first :: rest ++ [first])

variable {p : TransportProblem ℚ} {s : State ℚ} {plan : Plan ℚ} {first c d : Cell}
  {path path' rest rest' cells : List Cell} {alongRow : Bool}

theorem alternates_append (alongRow : Bool) (cells : List Cell) (c d : Cell) :
    Alternates alongRow (cells ++ [c, d]) ↔ Alternates alongRow (cells ++ [c]) ∧
      c.line (alongRow ^^ cells.length.bodd) = d.line (alongRow ^^ cells.length.bodd) := by
  induction cells generalizing alongRow with
  | nil =>
    rw [List.length_nil, Nat.bodd_zero, Bool.xor_false]
    exact and_comm
  | cons a cells ih =>
    have hflag : ((!alongRow) ^^ cells.length.bodd) = (alongRow ^^ (a :: cells).length.bodd) := by
      rw [List.length_cons, Nat.bodd_succ, Bool.not_xor, Bool.xor_not]
    rw [← hflag]
    cases cells with
    | nil =>
      rw [List.length_nil, Nat.bodd_zero, Bool.xor_false]
      exact ⟨fun h => ⟨⟨h.1, trivial⟩, h.2.1⟩, fun h => ⟨h.1.1, h.2, trivial⟩⟩
    | cons b cells => exact (and_congr_right' (ih (!alongRow))).trans and_assoc.symm

theorem bodd_eq {n : ℕ} (h : n % 2 = if alongRow then 1 else 0) : n.bodd = alongRow := by
  rw [Nat.mod_two_of_bodd] at h
  cases alongRow with
  | true => exact Bool.toNat_eq_one.mp h
  | false => exact Bool.toNat_eq_zero.mp h

/-- A cell put in front of a path, in reverse, alternates if it shares the line that comes next. -/
theorem alternates_reverse_cons (hflag : (d :: path).length % 2 = if alongRow then 1 else 0) :
    Alternates true (c :: d :: path).reverse ↔
      Alternates true (d :: path).reverse ∧ d.line alongRow = c.line alongRow := by
  have hparity : (true ^^ path.reverse.length.bodd) = alongRow := by
    rw [List.length_reverse, Bool.true_xor, ← Nat.bodd_succ]
    exact bodd_eq hflag
  rw [List.reverse_cons, List.reverse_cons, List.append_assoc, List.singleton_append,
    alternates_append, hparity]

namespace Trail

theorem cons_cases (h : Trail plan first (c :: path) alongRow) :
    c = first ∧ path = [] ∧ alongRow = true ∨
      Trail plan first path (!alongRow) ∧
        c.line (!alongRow) = (path.headD first).line (!alongRow) ∧
        plan.isBasic c = true ∧ c ∉ path := by
  cases h with
  | start => exact .inl ⟨rfl, rfl, rfl⟩
  | row h hc hbasic hnew => exact .inr ⟨h, congrArg Sum.inl hc, hbasic, hnew⟩
  | column h hc hbasic hnew => exact .inr ⟨h, congrArg Sum.inr hc, hbasic, hnew⟩

/-- Values that are the same across all cells of a trail but the first are the same at its ends. -/
theorem agree (h : Trail plan first path alongRow) {f : ℕ ⊕ ℕ → ℚ}
    (hf : ∀ d ∈ path, d ≠ first → f (.inl d.row) = f (.inr d.column)) :
    f ((path.headD first).line alongRow) = f (.inl first.row) := by
  induction h with
  | start => rfl
  | @row path c h hc hbasic hnew ih =>
    have hlast := hf c List.mem_cons_self (ne_of_mem_of_not_mem h.first_mem hnew).symm
    have hrest := ih fun d hd => hf d (List.mem_cons_of_mem c hd)
    change f (.inr c.column) = _
    rw [← hlast, hc]
    exact hrest
  | @column path c h hc hbasic hnew ih =>
    have hlast := hf c List.mem_cons_self (ne_of_mem_of_not_mem h.first_mem hnew).symm
    have hrest := ih fun d hd => hf d (List.mem_cons_of_mem c hd)
    change f (.inl c.row) = _
    rw [hlast, hc]
    exact hrest

theorem exists_suffix (h : Trail plan first path alongRow) (hc : c ∈ path) :
    ∃ before flag, Trail plan first (c :: before) flag ∧ c :: before <:+ path := by
  induction h with
  | start =>
    obtain rfl := List.mem_singleton.mp hc
    exact ⟨[], true, .start, List.suffix_refl _⟩
  | @row path d h hd hbasic hnew ih =>
    rcases List.mem_cons.mp hc with rfl | hc
    · exact ⟨path, false, h.row hd hbasic hnew, List.suffix_refl _⟩
    · obtain ⟨before, flag, htrail, hsuffix⟩ := ih hc
      exact ⟨before, flag, htrail, hsuffix.trans (List.suffix_cons d path)⟩
  | @column path d h hd hbasic hnew ih =>
    rcases List.mem_cons.mp hc with rfl | hc
    · exact ⟨path, true, h.column hd hbasic hnew, List.suffix_refl _⟩
    · obtain ⟨before, flag, htrail, hsuffix⟩ := ih hc
      exact ⟨before, flag, htrail, hsuffix.trans (List.suffix_cons d path)⟩

section Unique

variable (huntied : Untied plan.cells)
include huntied

/-- A trail that comes to a line through a cell passes that cell on every way there. -/
theorem mem_of_line_eq (h : Trail plan first (c :: path) alongRow) (hne : c ≠ first)
    (h' : Trail plan first path' alongRow)
    (hline : c.line alongRow = (path'.headD first).line alongRow) : c ∈ path' := by
  by_contra hc
  rcases h.cons_cases with ⟨heq, -, -⟩ | ⟨hbefore, hshared, hbasic, hnew⟩
  · exact hne heq
  · obtain ⟨f, hf, hdiffer⟩ := huntied c (Plan.mem_of_isBasic hbasic)
    have hothers {q : List Cell} {flag : Bool} (hq : Trail plan first q flag) (hcq : c ∉ q) :
        f ((q.headD first).line flag) = f (.inl first.row) := by
      apply hq.agree
      intro d hd hdfirst
      exact hf d (Plan.mem_of_isBasic ((hq.isBasic_of_mem hd).resolve_left hdfirst))
        (ne_of_mem_of_not_mem hd hcq)
    -- one end of the cell has the value of the start by each of the two trails
    have hstart := hothers hbefore hnew
    have hend := hothers h' hc
    rw [← hshared] at hstart
    rw [← hline] at hend
    cases alongRow with
    | true => exact hdiffer (hend.trans hstart.symm)
    | false => exact hdiffer (hstart.trans hend.symm)

/-- Two trails to a line have the same last cell, if shorter ones to a line are the same. -/
theorem last_eq {n : ℕ} (hn : (c :: path).length + (d :: path').length ≤ n + 1)
    (ih : ∀ {q q' : List Cell} {flag : Bool}, q.length + q'.length ≤ n →
      Trail plan first q flag → Trail plan first q' flag →
      (q.headD first).line flag = (q'.headD first).line flag → q = q')
    (h : Trail plan first (c :: path) alongRow) (h' : Trail plan first (d :: path') alongRow)
    (hline : c.line alongRow = d.line alongRow) (hc : c ≠ first) : c = d := by
  by_contra hcd
  have hmem : c ∈ path' := by
    rcases List.mem_cons.mp (mem_of_line_eq huntied h hc h' hline) with heq | hmem
    · exact absurd heq hcd
    · exact hmem
  have hd : d ≠ first ∧ d ∉ path' := by
    rcases h'.cons_cases with ⟨-, rfl, -⟩ | ⟨hbefore, -, -, hnew⟩
    · exact absurd hmem List.not_mem_nil
    · exact ⟨(ne_of_mem_of_not_mem hbefore.first_mem hnew).symm, hnew⟩
  have hmem' : d ∈ path := by
    rcases List.mem_cons.mp (mem_of_line_eq huntied h' hd.1 h hline.symm) with heq | hmem'
    · exact absurd heq.symm hcd
    · exact hmem'
  have hbefore : ∃ before flag, Trail plan first (c :: before) flag ∧ c :: before <:+ path' := by
    rcases h'.cons_cases with ⟨-, rfl, -⟩ | ⟨hbefore, -, -, -⟩
    · exact absurd hmem List.not_mem_nil
    · exact hbefore.exists_suffix hmem
  obtain ⟨before, flag, htrail, hsuffix⟩ := hbefore
  have hlength := hsuffix.length_le
  simp only [List.length_cons] at hn hlength
  -- the second trail passes the last cell of the first one, in the same direction or the other
  by_cases hflag : flag = alongRow
  · subst hflag
    have heq : c :: before = c :: path :=
      ih (by simp only [List.length_cons]; omega) htrail h rfl
    obtain rfl := (List.cons.inj heq).2
    exact hd.2 (hsuffix.subset (List.mem_cons_of_mem c hmem'))
  · rcases htrail.cons_cases with ⟨heq, -, -⟩ | ⟨hshorter, hshared, -, hnew⟩
    · exact hc heq
    · obtain rfl : alongRow = !flag := Bool.eq_not_of_ne (Ne.symm hflag)
      have heq : before = c :: path :=
        ih (by simp only [List.length_cons]; omega) hshorter h hshared.symm
      exact hnew (heq ▸ List.mem_cons_self)

/-- Trails to the same line, along rows or along columns, are the same. -/
theorem unique (h : Trail plan first path alongRow) (h' : Trail plan first path' alongRow)
    (hline : (path.headD first).line alongRow = (path'.headD first).line alongRow) :
    path = path' := by
  -- induction on the cells of both, for every line
  suffices key : ∀ n {q q' : List Cell} {flag : Bool}, q.length + q'.length ≤ n →
      Trail plan first q flag → Trail plan first q' flag →
      (q.headD first).line flag = (q'.headD first).line flag → q = q' from
    key _ le_rfl h h' hline
  intro n
  induction n with
  | zero =>
    intro q q' flag hn hq hq'
    have := List.length_pos_of_mem hq.first_mem
    omega
  | succ n ih =>
    intro q q' flag hn hq hq' hends
    obtain ⟨c, path, rfl⟩ := List.exists_cons_of_ne_nil (List.ne_nil_of_mem hq.first_mem)
    obtain ⟨d, path', rfl⟩ := List.exists_cons_of_ne_nil (List.ne_nil_of_mem hq'.first_mem)
    have hcd : c = d := by
      by_cases hc : c = first
      · by_cases hd : d = first
        · rw [hc, hd]
        · exact (last_eq huntied (by omega) ih hq' hq hends.symm hd).symm
      · exact last_eq huntied hn ih hq hq' hends hc
    subst hcd
    congr 1
    simp only [List.length_cons] at hn
    rcases hq.cons_cases with ⟨rfl, rfl, -⟩ | ⟨hbefore, hshared, -, hnew⟩
    · rcases hq'.cons_cases with ⟨-, rfl, -⟩ | ⟨hbefore, -, -, hnew⟩
      · rfl
      · exact absurd hbefore.first_mem hnew
    · rcases hq'.cons_cases with ⟨rfl, -, -⟩ | ⟨hbefore', hshared', -, -⟩
      · exact absurd hbefore.first_mem hnew
      · exact ih (by omega) hbefore hbefore' (hshared.symm.trans hshared')

end Unique

theorem alternates (h : Trail plan first path alongRow) : Alternates true path.reverse := by
  induction h with
  | start => trivial
  | @row path c h hc hbasic hnew ih =>
    obtain ⟨d, path, rfl⟩ := List.exists_cons_of_ne_nil (List.ne_nil_of_mem h.first_mem)
    exact (alternates_reverse_cons h.length_mod_two).mpr ⟨ih, congrArg Sum.inl hc.symm⟩
  | @column path c h hc hbasic hnew ih =>
    obtain ⟨d, path, rfl⟩ := List.exists_cons_of_ne_nil (List.ne_nil_of_mem h.first_mem)
    exact (alternates_reverse_cons h.length_mod_two).mpr ⟨ih, congrArg Sum.inr hc.symm⟩

/-- Distinct cells that alternate, basic from the second on, are a trail. -/
theorem of_alternates (hfirst : (c :: path).getLast? = some first) (hnodup : (c :: path).Nodup)
    (halternates : Alternates true (c :: path).reverse)
    (hbasic : ∀ d ∈ c :: path, d ≠ first → plan.isBasic d = true)
    (hflag : (c :: path).length % 2 = if alongRow then 1 else 0) :
    Trail plan first (c :: path) alongRow := by
  induction path generalizing c alongRow with
  | nil =>
    obtain rfl : c = first := by simpa using hfirst
    cases alongRow with
    | true => exact .start
    | false => simp at hflag
  | cons d path ih =>
    obtain ⟨hnew, hnodup⟩ := List.nodup_cons.mp hnodup
    have hflag' : (d :: path).length % 2 = if !alongRow then 1 else 0 := by
      rw [List.length_cons] at hflag
      cases alongRow with
      | true =>
        change (d :: path).length % 2 = 0
        change ((d :: path).length + 1) % 2 = 1 at hflag
        omega
      | false =>
        change (d :: path).length % 2 = 1
        change ((d :: path).length + 1) % 2 = 0 at hflag
        omega
    obtain ⟨halternates, hshared⟩ := (alternates_reverse_cons hflag').mp halternates
    have hlast : (d :: path).getLast? = some first := by
      rwa [List.getLast?_cons_cons] at hfirst
    have htrail := ih hlast hnodup halternates (fun a ha => hbasic a (List.mem_cons_of_mem c ha))
      hflag'
    have hc := hbasic c List.mem_cons_self (ne_of_mem_of_not_mem htrail.first_mem hnew).symm
    cases alongRow with
    | true => exact htrail.column (Sum.inr_injective hshared).symm hc hnew
    | false => exact htrail.row (Sum.inl_injective hshared).symm hc hnew

theorem exists_reverse_eq (h : Trail plan first path alongRow) :
    ∃ rest, path.reverse = first :: rest := by
  induction h with
  | start => exact ⟨[], rfl⟩
  | @row path c _ _ _ _ ih | @column path c _ _ _ _ ih =>
    obtain ⟨rest, hrest⟩ := ih
    exact ⟨rest ++ [c], by rw [List.reverse_cons, hrest, List.cons_append]⟩

end Trail

/-- What the search looks for are closed loops whose other cells are basic. -/
theorem isLoop_iff : IsLoop plan first cells ↔
    ∃ rest, cells = first :: rest ∧ ClosedLoop first rest ∧ ∀ c ∈ rest, plan.isBasic c = true := by
  constructor
  · rintro ⟨path, htrail, hclosed, hlength, rfl⟩
    obtain ⟨rest, hrest⟩ := htrail.exists_reverse_eq
    have hnodup : (first :: rest).Nodup := hrest ▸ List.nodup_reverse.mpr htrail.nodup
    have hcount : (first :: rest).length % 2 = 0 := by
      rw [← hrest, List.length_reverse]
      exact htrail.length_mod_two
    refine ⟨rest, hrest, ⟨hnodup, hcount, ?_⟩, fun c hc => ?_⟩
    · obtain ⟨d, path, rfl⟩ := List.exists_cons_of_ne_nil (List.ne_nil_of_mem htrail.first_mem)
      rw [← hrest, ← List.reverse_cons]
      exact (alternates_reverse_cons htrail.length_mod_two).mpr
        ⟨htrail.alternates, congrArg Sum.inr hclosed⟩
    · have hmem : c ∈ path := by
        rw [← List.mem_reverse, hrest]
        exact List.mem_cons_of_mem first hc
      exact (htrail.isBasic_of_mem hmem).resolve_left
        (ne_of_mem_of_not_mem hc (List.nodup_cons.mp hnodup).1)
  · rintro ⟨rest, rfl, hloop, hbasic⟩
    obtain ⟨c, path, hpath⟩ := List.exists_cons_of_ne_nil
      (List.reverse_ne_nil_iff.mpr (List.cons_ne_nil first rest))
    have hreverse : first :: rest = (c :: path).reverse := by rw [← hpath, List.reverse_reverse]
    have hflag : (c :: path).length % 2 = if false then 1 else 0 := by
      rw [← hpath, List.length_reverse]
      exact hloop.even
    have halternates := hloop.alternates
    rw [hreverse, ← List.reverse_cons] at halternates
    obtain ⟨halternates, hclosed⟩ := (alternates_reverse_cons hflag).mp halternates
    have hlast : (c :: path).getLast? = some first := by
      rw [← hpath, List.getLast?_reverse]
      rfl
    have htrail : Trail plan first (c :: path) false := by
      apply Trail.of_alternates hlast _ halternates _ hflag
      · rw [← hpath]
        exact List.nodup_reverse.mpr hloop.nodup
      · intro d hd hne
        rw [← hpath, List.mem_reverse] at hd
        exact hbasic d ((List.mem_cons.mp hd).resolve_left hne)
    have hcolumn : c.column = first.column := Sum.inr_injective hclosed
    exact ⟨c :: path, htrail, hcolumn, htrail.four_le_length hcolumn, hreverse⟩

/-- No closed loop is made of cells that are not tied. -/
theorem not_closedLoop (huntied : Untied plan.cells)
    (hbasic : ∀ c ∈ plan.cells, plan.isBasic c = true) (hsubset : first :: rest ⊆ plan.cells) :
    ¬ ClosedLoop first rest := by
  intro hloop
  obtain ⟨path, htrail, hclosed, -, hpath⟩ := isLoop_iff.mpr
    ⟨rest, rfl, hloop, fun c hc => hbasic c (hsubset (List.mem_cons_of_mem first hc))⟩
  obtain ⟨f, hf, hdiffer⟩ := huntied first (hsubset List.mem_cons_self)
  -- the other cells lead from the row of the first one to its column
  have hends := htrail.agree fun d hd hne => by
    rw [← List.mem_reverse, ← hpath] at hd
    exact hf d (hsubset hd) hne
  change f (.inr (path.headD first).column) = _ at hends
  rw [hclosed] at hends
  exact hdiffer hends.symm

/-- There is at most one loop through a cell. -/
theorem IsLoop.unique (huntied : Untied plan.cells) (h : IsLoop plan first cells)
    {others : List Cell} (h' : IsLoop plan first others) : cells = others := by
  obtain ⟨path, htrail, hclosed, -, rfl⟩ := h
  obtain ⟨path', htrail', hclosed', -, rfl⟩ := h'
  rw [htrail.unique huntied htrail' (congrArg Sum.inr (hclosed.trans hclosed'.symm))]

end Transport

end Optima
