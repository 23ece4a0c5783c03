import TypeBridge.Error

/-!
Lists of type parameters. Parameters are collected from every place that mentions them, so a raw
list repeats names; a name may repeat only with one and the same constraint.
-/

namespace TypeBridge

namespace Expr

/-- The arms of a union that are compared with each other: literals and primitive types. -/
def isPlain : Expr → Bool
  | .literal _ => true
  | .keyword _ => true
  | _ => false

/-- Removes plain arms that repeat an arm kept before them. `kept` is in order. -/
def distinctArms (kept : List Expr) : List Expr → List Expr
  | [] => kept
  | arm :: rest =>
      if arm.isPlain && kept.any (same arm) then distinctArms kept rest
      else distinctArms (kept ++ [arm]) rest

/-- Removes repeated plain arms at the top of a union. -/
def withDistinctArms : Expr → Expr
  | .union arms => .union (distinctArms [] arms)
  | e => e

/-- Structural equality of optional expressions. -/
def sameOption : Option Expr → Option Expr → Bool
  | none, none => true
  | some a, some b => same a b
  | _, _ => false

end Expr

namespace TypeParameter

/-- A parameter whose constraint repeats no plain arm. -/
def tidy (p : TypeParameter) : TypeParameter :=
  { p with constraint := p.constraint.map Expr.withDistinctArms }

/-- Adds parameters to those kept, unless their names are there with the same constraint. -/
def merge (kept : List TypeParameter) : List TypeParameter → Except Error (List TypeParameter)
  | [] => .ok kept
  | p :: rest =>
      let p := p.tidy
      match kept.find? (fun k => k.name.emitted == p.name.emitted) with
      | none => merge (kept ++ [p]) rest
      | some k =>
          if Expr.sameOption k.constraint p.constraint then merge kept rest
          else .error (.typeParameterCollision p.name.emitted)

/-- One parameter per name, in the order of first mention. -/
def simplify (params : List TypeParameter) : Except Error (List TypeParameter) := merge [] params

end TypeParameter

end TypeBridge
