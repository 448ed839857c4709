import Formulary.Evaluation.Builtin
import Formulary.Program
import Formulary.Stack

/-!
# Actions on a stack

An evaluator keeps more than an evaluation sees: whether a use of it is under way, which gives it
headroom on the stack, and the name of the body that began last, which is named where the stack runs
out. An action on a stack changes all this. It ends with a value, or it is halted: by a fault, by the
stack, or for want of fuel. Added functions may go on after a fault. They are not told that the stack
has run out: that halts them with the evaluation that they interrupted.

Every part of an evaluation takes some frames while it is under way, and gives them back. How many
is a table, since the system decides it.
-/

namespace Formulary.Evaluation

/-- What happens to the body of a definition: a call begins it, it ends, with a value or without, or
a call of it is refused because of the limit. -/
inductive Event where
  | begins (d : Definition)
  | ends
  | refused (d : Definition)

/-- Why an action has no value. -/
inductive Halt where
  | fault (f : Fault)
  | stack (e : Stack.Error)
  | outOfFuel

/-- The state of an evaluator: that of its evaluations, how many uses of it are under way that asked
for headroom, and the name of the body that began last since. What has happened to bodies is noted
down, the latest first; nothing reads it. -/
structure Machine extends State where
  guards : Nat := 0
  lastCall : Option String := none
  events : List Event := []

/-- The name that is reported where the stack runs out. -/
def Machine.culprit (m : Machine) : String :=
  match m.lastCall with
  | none | some "" => "<top level>"
  | some name => name

/-- The parts of an evaluation that take frames of the stack: uses from outside, evaluations in
scopes of their own, nodes, arguments, calls and added functions, under which others may stand, and
the helpers, which stand alone. -/
inductive Part where
  | use
  | evaluation
  | node
  | arguments
  | call
  | routine
  | operator
  | condition
  | declaration
  | builtin
  | fault
deriving DecidableEq, Repr

/-- The frames that each part takes. -/
abbrev Frames := Part → Nat

namespace Frames

/-- A node takes three frames, since it is visited by way of two functions. The helpers are small. -/
def usual : Frames
  | .node => 3
  | .routine | .operator | .builtin => 2
  | .fault => 4
  | _ => 1

/-- No part takes any. -/
def none : Frames := fun _ => 0

end Frames

/-- A step of an evaluation on a stack. -/
def Stacked (α : Type) : Type := Stack → Machine → Except Halt α × Machine

namespace Stacked

variable {α β : Type}

/-- Carry out one action after another. -/
@[always_inline, inline]
protected def bind (p : Stacked α) (f : α → Stacked β) : Stacked β := fun stack m =>
  match p stack m with
  | (.ok a, after) => f a stack after
  | (.error h, after) => (.error h, after)

@[always_inline]
instance : Monad Stacked where
  pure a _ m := (.ok a, m)
  bind := Stacked.bind

/-- Have no value. -/
def halt (h : Halt) : Stacked α := fun _ m => (.error h, m)

/-- Carry out an action that needs no stack. -/
def lift (a : Action α) : Stacked α := fun _ m =>
  match a m.toState with
  | .value x after => (.ok x, { m with toState := after })
  | .fault f after => (.error (.fault f), { m with toState := after })
  | .outOfFuel => (.error .outOfFuel, m)

/-- The scopes in force. -/
def scopes : Stacked (List Frame) := fun _ m => (.ok m.scopes, m)

/-- Carry out an action with some more frames on the stack. -/
def under (frames : Nat) (p : Stacked α) : Stacked α := fun stack m =>
  match stack.holding frames with
  | some deeper => p deeper m
  | none => (.error (.stack .exhausted), m)

/-- Put some frames on the stack, and take them off. -/
def need (frames : Nat) : Stacked Unit := under frames (pure ())

/-- Carry out an action in other scopes, and return to those in force. -/
def inScopes (scopes : List Frame) (p : Stacked α) : Stacked α := fun stack m =>
  let (result, after) := p stack { m with scopes }
  (result, { after with scopes := m.scopes })

/-- Carry out an action in a new innermost scope, and close it. -/
def inFrame (frame : Frame) (p : Stacked α) : Stacked α := fun stack m =>
  let (result, after) := p stack { m with scopes := frame :: m.scopes }
  (result, { after with scopes := after.scopes.tail })

/-- Carry out an action as the body of a definition that was called by a name. -/
def asBody (name : String) (d : Definition) (p : Stacked α) : Stacked α := fun stack m =>
  let (result, after) := p stack
    { m with
      activeCalls := m.activeCalls + 1
      lastCall := some name
      events := .begins d :: m.events }
  (result,
    { after with activeCalls := after.activeCalls - 1, events := .ends :: after.events })

/-- Stop with a fault before the body of a definition. -/
def refuse (d : Definition) (f : Fault) : Stacked α := fun _ m =>
  (.error (.fault f), { m with events := .refused d :: m.events })

/-- Carry out one action below a limit on calls under way, and another from there on. -/
def below (limit : Int) (p otherwise : Stacked α) : Stacked α := fun stack m =>
  if limit ≤ m.activeCalls then otherwise stack m else p stack m

/-- Carry out an action and go on whether it ends with a value or with a fault. -/
def attempt (p : Stacked α) (next : Except Fault α → Stacked β) : Stacked β := fun stack m =>
  match p stack m with
  | (.ok a, after) => next (.ok a) stack after
  | (.error (.fault f), after) => next (.error f) stack after
  | (.error h, after) => (.error h, after)

/-- Carry out an action with headroom. -/
def raising (frames : Int) (p : Stacked α) : Stacked α := fun stack m =>
  match stack.raised frames with
  | .ok higher => p higher m
  | .error e => (.error (.stack e), m)

/-- Where the stack has run out, report too many calls. -/
def reporting (limit : Int) (p : Stacked α) : Stacked α := fun stack m =>
  match p stack m with
  | (.error (.stack .exhausted), after) =>
    (.error (.fault (.failed (.callDepthExceeded after.culprit limit))), after)
  | other => other

/-- The frames of headroom for each call that a limit allows. -/
def framesPerCall : Int := 16

/-- Carry out an action with headroom for all calls that a limit allows. An action within another
one that has it already needs no more. -/
def guarded (limit : Int) (p : Stacked α) : Stacked α := fun stack m =>
  if m.guards ≠ 0 then p stack m
  else
    let (result, after) := reporting limit (raising (limit * framesPerCall) p) stack
      { m with guards := m.guards + 1, lastCall := Option.none }
    (result, { after with guards := after.guards - 1 })

end Stacked

end Formulary.Evaluation
