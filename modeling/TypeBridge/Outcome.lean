import TypeBridge.Directive
import TypeBridge.Error

/-!
Runs that change a state, report events on the way and may stop. The state and the events up to the
point where a run stopped are part of its outcome.
-/

namespace TypeBridge

inductive Level where
  | info
  | warn
  | error
deriving DecidableEq, Repr

def Level.name : Level → String
  | info => "info"
  | warn => "warn"
  | error => "error"

/-- What is worth telling the user without stopping. -/
inductive Event where
  | packageError (error package : String)
  | externalType (name package : String)
  | builtinShadowed (name : String)
  | enumsUnlisted (count : Nat)
  | listSkipped (name : String)
  | unresolved (node : String) (missing : List String)
deriving DecidableEq

namespace Event

def level : Event → Level
  | packageError .. => .error
  | externalType .. => .info
  | _ => .warn

def message : Event → String
  | packageError error _ => Directive.errorHint error
  | externalType .. => "found external type"
  | builtinShadowed _ => "builtin not emitted, a declaration with the same name exists"
  | enumsUnlisted _ => "enum declarations are not listed, run EnumAsTypes first"
  | listSkipped _ => "enum list not generated, a declaration with that name exists"
  | unresolved .. => "unresolved reference replaced with any"

/-- The named details of an event. -/
def fields : Event → List (String × String)
  | packageError error package => [("error", error), ("pkg", package)]
  | externalType name package => [("name", name), ("ext_pkg", package)]
  | builtinShadowed name => [("name", name)]
  | enumsUnlisted count => [("enums", Text.digitString count)]
  | listSkipped name => [("name", name)]
  | unresolved node missing => [("node", node), ("missing", String.intercalate ", " missing)]

end Event

/-- The state a run leaves behind, what it reported, and what stopped it, if anything did. -/
structure Outcome (σ : Type) where
  state : σ
  events : List Event := []
  failure : Option Error := none

namespace Outcome

variable {σ : Type} {α : Type}

/-- A run that changed the state and came to its end. -/
def done (state : σ) : Outcome σ := { state := state }

/-- A run that stopped. -/
def stopped (state : σ) (e : Error) : Outcome σ := { state := state, failure := some e }

/-- Continues a run that has not stopped. -/
def andThen (o : Outcome σ) (next : σ → Outcome σ) : Outcome σ :=
  match o.failure with
  | some _ => o
  | none =>
      let r := next o.state
      { r with events := o.events ++ r.events }

/-- Runs a step for every element of a list, up to the first that stops. -/
def forEach (step : α → σ → Outcome σ) : List α → σ → Outcome σ
  | [], s => done s
  | a :: rest, s => (step a s).andThen (forEach step rest)

/-- Wraps what stopped a run. -/
def mapError (f : Error → Error) (o : Outcome σ) : Outcome σ :=
  { o with failure := o.failure.map f }

/-- The final state of a run that did not stop. -/
def result (o : Outcome σ) : Except Error σ :=
  match o.failure with
  | some e => .error e
  | none => .ok o.state

end Outcome

end TypeBridge
