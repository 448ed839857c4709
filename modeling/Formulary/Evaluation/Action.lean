import Formulary.Evaluation.Error
import Formulary.NameTable

/-!
# Actions

An action changes the state of an evaluation and ends with a value, with a fault, or for want of
fuel. The state holds the scopes in force, the number of calls under way, and the text written so
far. A fault leaves the state as it was when the fault arose, after the scopes and the calls that it
passed on its way out have been closed. What an evaluator keeps for its stack is beside this, in
`Formulary.Evaluation.Machine`.
-/

namespace Formulary.Evaluation

/-- The variables of one scope. -/
abbrev Frame := NameTable Float

/-- The state of an evaluation. The innermost scope is the first. -/
structure State where
  scopes : List Frame := []
  activeCalls : Nat := 0
  output : String := ""

/-- What an action comes to. -/
inductive Outcome (α : Type) where
  | value (a : α) (after : State)
  | fault (f : Fault) (after : State)
  | outOfFuel

/-- A step of an evaluation. -/
def Action (α : Type) : Type := State → Outcome α

namespace Action

variable {α β : Type}

/-- Carry out one action after another. -/
@[always_inline, inline]
protected def bind (p : Action α) (f : α → Action β) : Action β := fun s =>
  match p s with
  | .value a after => f a after
  | .fault f after => .fault f after
  | .outOfFuel => .outOfFuel

@[always_inline]
instance : Monad Action where
  pure a s := .value a s
  bind := Action.bind

/-- Out of fuel. -/
def outOfFuel : Action α := fun _ => .outOfFuel

/-- Stop with a fault. -/
def stop (f : Fault) : Action α := fun s => .fault f s

/-- The state. -/
def state : Action State := fun s => .value s s

/-- Write a text. -/
def write (text : String) : Action Unit := fun s =>
  .value () { s with output := s.output ++ text }

/-- The outcome after a change of its state. -/
def mapState (change : State → State) : Outcome α → Outcome α
  | .value a after => .value a (change after)
  | .fault f after => .fault f (change after)
  | .outOfFuel => .outOfFuel

/-- Carry out an action in other scopes, and return to those in force. -/
def inScopes (scopes : List Frame) (p : Action α) : Action α := fun s =>
  mapState (fun after => { after with scopes := s.scopes }) (p { s with scopes })

/-- Carry out an action in a new innermost scope, and close it. -/
def inFrame (frame : Frame) (p : Action α) : Action α := fun s =>
  mapState (fun after => { after with scopes := after.scopes.tail })
    (p { s with scopes := frame :: s.scopes })

/-- Carry out an action as one more call under way. -/
def asCall (p : Action α) : Action α := fun s =>
  mapState (fun after => { after with activeCalls := after.activeCalls - 1 })
    (p { s with activeCalls := s.activeCalls + 1 })

/-- Carry out an action and go on whether it ends with a value or with a fault. -/
def attempt (p : Action α) (next : Except Fault α → Action β) : Action β := fun s =>
  match p s with
  | .value a after => next (.ok a) after
  | .fault f after => next (.error f) after
  | .outOfFuel => .outOfFuel

/-- The value of a variable, in the innermost scope that has it. -/
def lookup? (name : String) : List Frame → Option Float
  | [] => none
  | frame :: outer =>
    match frame.get? name with
    | some x => some x
    | none => lookup? name outer

/-- Add to a variable of the innermost scope. -/
def increase (name : String) (step : Float) : Action Unit := fun s =>
  match s.scopes with
  | [] => .value () s
  | frame :: outer =>
    match frame.get? name with
    | none => .value () s
    | some x => .value () { s with scopes := frame.insert name (x + step) :: outer }

end Action

end Formulary.Evaluation
