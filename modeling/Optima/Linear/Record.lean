import Optima.Json.Numbers
import Optima.Linear.Program

namespace Optima

open Json

def Relation.ofJson? (j : Json) : Option Relation := (choice? j).bind ofText?

def LinearForm.ofJson? (j : Json) : Option (LinearForm Float) := do
  let [coefficients, names] ←
    record? [⟨"coefficients", false⟩, ⟨"variables", false⟩] j | none
  return ⟨← required (list? float?) coefficients, ← required (list? string?) names⟩

def Constraint.ofJson? (j : Json) : Option (Constraint Float) := do
  let [coefficients, names, relation, bound] ←
    record? [⟨"coefficients", false⟩, ⟨"variables", false⟩, ⟨"type", false⟩, ⟨"rhs", false⟩] j
    | none
  return {
    coefficients := ← required (list? float?) coefficients
    names := ← required (list? string?) names
    relation := ← required Relation.ofJson? relation
    bound := ← required float? bound }

def LinearProgram.ofJson? (j : Json) : Option (LinearProgram Float) := do
  let [objective, constraints, isMaximization] ←
    record? [⟨"objective", false⟩, ⟨"constraints", false⟩, ⟨"is_maximization", false⟩] j | none
  return {
    objective := ← required LinearForm.ofJson? objective
    constraints := ← required (list? Constraint.ofJson?) constraints
    goal := Goal.ofMaximization (← required bool? isMaximization) }

end Optima
