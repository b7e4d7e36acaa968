import Optima.Simplex.State

namespace Optima.Simplex

def termText (number name : String) : String :=
  match number with
  | "1" => name
  | "-1" => "-" ++ name
  | _ => number ++ name

/-- Puts a term after a text, with its sign as an operator unless the text is empty. -/
def appendTerm (text term : String) : String :=
  if text.isEmpty then term
  else
    match term.toList with
    | '-' :: rest => text ++ " - " ++ String.ofList rest
    | _ => text ++ " + " ++ term

def joinTerms (terms : List String) : String :=
  if terms.isEmpty then "0" else terms.foldl appendTerm ""

variable {F : Type} [Scalar F] [Numeral F]

def rowText (names : List String) (row : List F) : String :=
  joinTerms (((row.zip names).filter fun (k, _) => !(k == 0)).map fun (k, name) =>
    termText (Numeral.text k) name)

def objectiveText (goal : Goal) (names : List String) (cost : List (BigM F)) : String :=
  goal.abbreviation ++ " z = " ++
    joinTerms (((cost.zip names).filter fun (c, _) => !(c == 0)).map fun (c, name) =>
      termText c.text name)

def formulation (goal : Goal) (names : List String) (cost : List (BigM F))
    (body : Matrix F) (rhs : List F) : String :=
  "\n".intercalate (objectiveText goal names cost ::
    body.rows.zipWith (fun row b => rowText names row ++ " = " ++ Numeral.text b) rhs)

end Optima.Simplex
