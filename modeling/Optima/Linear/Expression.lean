import Optima.Scalar
import Optima.Numeral
import Optima.Text.Blank

namespace Optima.Linear

inductive ExpressionFault where
  | missingOperator
  | badCoefficient (text : String)
  | unexpected (c : Char)
  | missingName
  | noTerms
  deriving DecidableEq

def ExpressionFault.message : ExpressionFault → String
  | .missingOperator => "Missing operator between terms"
  | .badCoefficient text => "Invalid coefficient: " ++ text
  | .unexpected c => s!"Unexpected character '{c}' in expression"
  | .missingName => "Expected a variable name at the end of the expression"
  | .noTerms => "Expression has no terms"

def isSign (c : Char) : Bool := c == '+' || c == '-'

def isLead (c : Char) : Bool := isSign c || Text.isBlank c

def isNumeric (c : Char) : Bool := c.isDigit || c == '.'

def isNameChar (c : Char) : Bool := c.isAlphanum || c == '_'

variable {F : Type} [Scalar F] [Numeral F]

/-- Adds to the coefficient of a name, or appends the name. -/
def addTerm (terms : List (String × F)) (name : String) (coefficient : F) : List (String × F) :=
  if terms.any (·.1 == name) then
    terms.map fun (n, k) => if n == name then (n, k + coefficient) else (n, k)
  else terms ++ [(name, coefficient)]

def coefficient (digits : List Char) : Except ExpressionFault F :=
  if digits.isEmpty then .ok 1
  else
    match Numeral.read? digits with
    | some x => .ok x
    | none => .error (.badCoefficient (String.ofList digits))

def name (cs : List Char) : Except ExpressionFault (String × List Char) :=
  match cs with
  | [] => .error .missingName
  | c :: rest =>
    if c.isAlpha then
      .ok (String.ofList (c :: rest.takeWhile isNameChar), rest.dropWhile isNameChar)
    else .error (.unexpected c)

/-- Reads one term and returns the text after it. Only the first term may do without a sign. -/
def term (isFirst : Bool) (cs : List Char) :
    Except ExpressionFault ((String × F) × List Char) := do
  let lead := cs.takeWhile isLead
  let body := cs.dropWhile isLead
  if !isFirst && !lead.any isSign then throw .missingOperator
  let k : F ← coefficient (body.takeWhile isNumeric)
  let (n, rest) ← name (Text.trimLeft (body.dropWhile isNumeric))
  return ((n, if lead.count '-' % 2 = 0 then k else -k), rest)

theorem name_length {cs rest : List Char} {n : String} (h : name cs = .ok (n, rest)) :
    rest.length < cs.length := by
  match cs with
  | [] => simp [name] at h
  | c :: cs =>
    by_cases hc : c.isAlpha
    · simp only [name, hc, if_true, Except.ok.injEq, Prod.mk.injEq] at h
      have := (List.dropWhile_sublist isNameChar (l := cs)).length_le
      simp only [← h.2, List.length_cons]
      omega
    · simp [name, hc] at h

theorem term_length {cs rest : List Char} {isFirst : Bool} {t : String × F}
    (h : term isFirst cs = .ok (t, rest)) : rest.length < cs.length := by
  have drop (p : Char → Bool) (l : List Char) : (l.dropWhile p).length ≤ l.length :=
    (List.dropWhile_sublist p).length_le
  simp only [term, bind, Except.bind] at h
  split at h
  · simp at h
  split at h
  · simp at h
  split at h
  · simp at h
  rename_i found hn
  obtain ⟨n, r⟩ := found
  simp only [pure, Except.pure, Except.ok.injEq, Prod.mk.injEq] at h
  have h₁ := name_length hn
  have h₂ := drop Text.isBlank ((cs.dropWhile isLead).dropWhile isNumeric)
  have h₃ := drop isNumeric (cs.dropWhile isLead)
  have h₄ := drop isLead cs
  simp only [Text.trimLeft, h.2] at h₁
  omega

def terms (found : List (String × F)) (cs : List Char) :
    Except ExpressionFault (List (String × F)) :=
  if (Text.trimLeft cs).isEmpty then .ok found
  else
    match h : term found.isEmpty cs with
    | .error fault => .error fault
    | .ok ((n, k), rest) =>
      have := term_length h
      terms (addTerm found n k) rest
termination_by cs.length

/-- Reads a sum such as `3x1 - x2 + 2.5y`, in which repeated names are added up. -/
def expression (cs : List Char) : Except ExpressionFault (List (String × F)) := do
  let found ← terms [] cs
  if found.isEmpty then throw .noTerms else return found

end Optima.Linear
