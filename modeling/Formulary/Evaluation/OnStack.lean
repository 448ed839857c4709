import Formulary.Evaluation.Stacked
import Formulary.Evaluation.Target

/-!
# Evaluating programs on a stack

This is evaluation as it is carried out: what is evaluated, and in which order, is what
`Formulary.Evaluation.Basic` says, and every part of it takes frames of the stack. A use of an
evaluator from outside asks for headroom, sixteen frames for each call that the limit allows. If the
system refuses that, the use is over before it began. If the stack runs out all the same, which the
body of a function may bring about that is deep enough, then that is reported as too many calls.

Whatever an added function has called or evaluated is a use of the evaluator within another one. It
asks for nothing, and where the stack runs out in it, the outer use reports it.
-/

namespace Formulary.Evaluator

open Evaluation

section

variable (frames : Frames) (ev : Evaluator) (p : Program)

/-- Use the evaluator from outside: with headroom for the calls that the limit allows. -/
def useOn {α : Type} (inner : Stacked α) : Stacked α :=
  .under (frames .use) (.guarded ev.callLimit inner)

/-- Stop with a fault, which is put together first. -/
def raise {α : Type} (f : Fault) : Stacked α := do
  Stacked.need (frames .fault)
  Stacked.halt (.fault f)

/-- Refuse the body of a definition that was called by a name, because of the limit. -/
def refuseOn {α : Type} (name : String) (d : Definition) : Stacked α := do
  Stacked.need (frames .fault)
  Stacked.refuse d (.failed (.callDepthExceeded name ev.callLimit))

mutual

/-- Evaluate an expression. -/
def evalOn : Nat → Expr → Stacked Float
  | 0, _ => .halt .outOfFuel
  | _ + 1, .number value _ => .under (frames .node) (pure value)
  | _ + 1, .var name span => .under (frames .node) do
    let scopes ← Stacked.scopes
    match Action.lookup? name scopes with
    | some x => return x
    | none =>
      raise frames (.unresolved
        { cause := .unknownVariable name, location := span.map Span.first,
          node := some (.var name span) })
  | fuel + 1, .binary op left right _ => .under (frames .node) do
    let x ← evalOn fuel left
    let y ← evalOn fuel right
    Stacked.need (frames .operator)
    return op.apply x y
  | fuel + 1, .call name arguments span => .under (frames .node) do
    let values ← Stacked.under (frames .arguments) (evalAllOn fuel arguments)
    Stacked.under (frames .call) (callOn fuel (some (.call name arguments span)) name values)
  | fuel + 1, .cond condition consequent alternative _ => .under (frames .node) do
    let x ← evalOn fuel condition
    Stacked.need (frames .condition)
    if isTrue x then evalOn fuel consequent else evalOn fuel alternative
  | fuel + 1, .loop name start stop step body _ => .under (frames .node) do
    let x ← evalOn fuel start
    Stacked.inFrame (.ofList [(name, x)]) (turnOn fuel name stop step body)

/-- Evaluate expressions from left to right. -/
def evalAllOn : Nat → List Expr → Stacked (List Float)
  | 0, _ => .halt .outOfFuel
  | _ + 1, [] => pure []
  | fuel + 1, e :: rest => do
    let x ← evalOn fuel e
    let xs ← evalAllOn fuel rest
    return x :: xs

/-- One turn of a loop whose variable is in the innermost scope, and the turns after it. -/
def turnOn : Nat → String → Expr → Option Expr → Expr → Stacked Float
  | 0, _, _, _, _ => .halt .outOfFuel
  | fuel + 1, name, stop, step, body => do
    let _ ← evalOn fuel body
    let size ← (match step with
      | none => pure 1.0
      | some e => evalOn fuel e : Stacked Float)
    let goesOn ← evalOn fuel stop
    Stacked.need (frames .operator)
    Stacked.lift (Action.increase name size)
    Stacked.need (frames .condition)
    if isTrue goesOn then turnOn fuel name stop step body else return 0.0

/-- Call a function with values. -/
def callOn : Nat → Option Expr → String → List Float → Stacked Float
  | 0, _, _, _ => .halt .outOfFuel
  | fuel + 1, node, name, values => do
    Stacked.need (frames .declaration)
    match ev.target p node name values with
    | .fault f => raise frames f
    | .body d scope =>
      Stacked.below ev.callLimit
        (Stacked.asBody name d (Stacked.inScopes [scope] (evalOn fuel d.body)))
        (refuseOn frames ev name d)
    | .routine routine => Stacked.under (frames .routine) (performOn fuel routine)
    | .standard standard => do
      Stacked.need (frames .builtin)
      Stacked.lift (ev.invoke name standard values)

/-- Carry out an added outside function. What it has called or evaluated is a use of the evaluator.
-/
def performOn : Nat → Routine → Stacked Float
  | 0, _ => .halt .outOfFuel
  | _ + 1, .done (.ok x) => pure x
  | _ + 1, .done (.error f) => .halt (.fault f)
  | fuel + 1, .call name arguments next =>
    Stacked.attempt
      (useOn frames ev (Stacked.under (frames .call) (callOn fuel none name arguments)))
      fun result => performOn fuel (next result)
  | fuel + 1, .evaluate e bindings next =>
    Stacked.attempt
      (useOn frames ev (Stacked.under (frames .evaluation)
        (Stacked.inScopes [.ofList bindings] (evalOn fuel e))))
      fun result => performOn fuel (next result)

end

/-! ### Uses from outside -/

/-- Evaluate an expression with the given bindings alone in scope, within a use. -/
def enclosed (fuel : Nat) (e : Expr) (bindings : List (String × Float) := []) : Stacked Float :=
  .under (frames .evaluation) (.inScopes [.ofList bindings] (evalOn frames ev p fuel e))

/-- Evaluate formulas one after the other, and write the results if asked to. -/
def evaluateAllOn (fuel : Nat) : List Expr → Stacked (List Float)
  | [] => pure []
  | e :: rest => do
    let x ← enclosed frames ev p fuel e
    if ev.printsResults then Stacked.lift (Standard.writeNumber x)
    let xs ← evaluateAllOn fuel rest
    return x :: xs

/-- Evaluate an expression with the given bindings alone in scope. -/
def evaluateOn (fuel : Nat) (e : Expr) (bindings : List (String × Float) := []) : Stacked Float :=
  useOn frames ev (enclosed frames ev p fuel e bindings)

/-- Evaluate the formulas of a program. -/
def runOn (fuel : Nat) : Stacked (List Float) :=
  useOn frames ev (evaluateAllOn frames ev p fuel p.expressions)

/-- Call a function of a program from outside. -/
def callNamedOn (fuel : Nat) (name : String) (values : List Float) : Stacked Float :=
  useOn frames ev (.under (frames .call) (callOn frames ev p fuel none name values))

end

end Formulary.Evaluator
