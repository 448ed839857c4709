import Formulary.Evaluation.Builtin
import Formulary.Program

/-!
# Evaluating programs

Operands and arguments are evaluated once each, from left to right. A call checks its name, its
number of arguments and the limit on calls under way after its arguments are evaluated. It runs the
declaration in force: the body of a definition in a scope of its parameters alone, or an outside
function. A definition runs only if the evaluator knows it, which it does if the program had it when
the evaluator was made.

A loop evaluates its body, its step and its end, adds the step to its variable, and goes on while
the end was true. Its value is zero.

Evaluation need not end, so it has fuel, of which every nested step and every turn of a loop takes
one.

This is evaluation on a stack that is deep enough. The headroom that an evaluator asks for, and what it
does on any stack, is in `Formulary.Evaluation.OnStack`.
-/

namespace Formulary

/-- The limit on calls under way where none is asked for. -/
def defaultCallLimit : Int := 1000

/-- An evaluator of one program: the definitions it knows, the outside functions added to the
standard ones, the way in which the standard ones are carried out, and its settings. -/
structure Evaluator where
  known : NameTable (Definition × Nat) := {}
  added : NameTable (List Float → Evaluation.Routine) := {}
  invoke : String → Evaluation.Standard → List Float → Evaluation.Action Float :=
    Evaluation.Standard.invoke
  callLimit : Int := defaultCallLimit
  printsResults : Bool := false

namespace Evaluator

open Evaluation

/-- The latest definition of each name, with the number of definitions before it. -/
def definitionsOf (p : Program) : NameTable (Definition × Nat) :=
  .ofList (p.definitions.zipIdx.map fun d => (d.1.name, d))

/-- An evaluator made for a program as it stands. -/
def ofProgram (p : Program) (added : NameTable (List Float → Routine) := {})
    (callLimit : Int := defaultCallLimit) (printsResults : Bool := false) : Evaluator :=
  { known := definitionsOf p, added, callLimit, printsResults }

/-- The definition that a call of a name runs: the declaration in force, if it is a definition that
the evaluator knows. That is the case if both have the same prototype, for which the number of
definitions before them stands. So no two declarations of a program share a prototype; where one is put
together by hand, this is assumed of it. -/
def definition? (ev : Evaluator) (p : Program) (name : String) : Option Definition :=
  match p.declaration? name, ev.known.get? name with
  | some (.definition _ rank), some (d, knownRank) => if rank = knownRank then some d else none
  | _, _ => none

/-- A fault about a call. A call from outside the program has no node. -/
def callFault (node : Option Expr) (cause : ResolutionCause) : Fault :=
  .unresolved { cause, location := node.bind Expr.location, node }

mutual

/-- Evaluate an expression. -/
def eval (ev : Evaluator) (p : Program) : Nat → Expr → Action Float
  | 0, _ => .outOfFuel
  | _ + 1, .number value _ => pure value
  | _ + 1, .var name span => do
    let s ← Action.state
    match Action.lookup? name s.scopes with
    | some x => return x
    | none =>
      .stop (.unresolved
        { cause := .unknownVariable name, location := span.map Span.first,
          node := some (.var name span) })
  | fuel + 1, .binary op left right _ => do
    let x ← eval ev p fuel left
    let y ← eval ev p fuel right
    return op.apply x y
  | fuel + 1, .call name arguments span => do
    let values ← evalAll ev p fuel arguments
    call ev p fuel (some (.call name arguments span)) name values
  | fuel + 1, .cond condition consequent alternative _ => do
    let x ← eval ev p fuel condition
    if isTrue x then eval ev p fuel consequent else eval ev p fuel alternative
  | fuel + 1, .loop name start stop step body _ => do
    let x ← eval ev p fuel start
    Action.inFrame (.ofList [(name, x)]) (turn ev p fuel name stop step body)

/-- Evaluate expressions from left to right. -/
def evalAll (ev : Evaluator) (p : Program) : Nat → List Expr → Action (List Float)
  | 0, _ => .outOfFuel
  | _ + 1, [] => pure []
  | fuel + 1, e :: rest => do
    let x ← eval ev p fuel e
    let xs ← evalAll ev p fuel rest
    return x :: xs

/-- One turn of a loop whose variable is in the innermost scope, and the turns after it. -/
def turn (ev : Evaluator) (p : Program) :
    Nat → String → Expr → Option Expr → Expr → Action Float
  | 0, _, _, _, _ => .outOfFuel
  | fuel + 1, name, stop, step, body => do
    let _ ← eval ev p fuel body
    let size ← match step with
      | none => pure 1.0
      | some e => eval ev p fuel e
    let goesOn ← eval ev p fuel stop
    Action.increase name size
    if isTrue goesOn then turn ev p fuel name stop step body else return 0.0

/-- Call a function with values. -/
def call (ev : Evaluator) (p : Program) :
    Nat → Option Expr → String → List Float → Action Float
  | 0, _, _, _ => .outOfFuel
  | fuel + 1, node, name, values =>
    match p.prototype? name with
    | none => .stop (callFault node (.unknownFunction name []))
    | some prototype =>
      if prototype.arity ≠ values.length then
        .stop (callFault node (.arityMismatch name prototype.arity values.length))
      else
        match ev.definition? p name with
        | some d => do
          let s ← Action.state
          if ev.callLimit ≤ s.activeCalls then
            .stop (.failed (.callDepthExceeded name ev.callLimit))
          else
            Action.asCall (Action.inScopes [.ofList (prototype.params.zip values)]
              (eval ev p fuel d.body))
        | none =>
          match ev.added.get? name with
          | some routine => perform ev p fuel (routine values)
          | none =>
            match Standard.find? name with
            | some standard =>
              if standard.arity ≠ prototype.arity then standard.refuse name prototype.arity
              else ev.invoke name standard values
            | none => .stop (.failed (.unboundExtern name none))

/-- Carry out an added outside function. -/
def perform (ev : Evaluator) (p : Program) : Nat → Routine → Action Float
  | 0, _ => .outOfFuel
  | _ + 1, .done (.ok x) => pure x
  | _ + 1, .done (.error f) => .stop f
  | fuel + 1, .call name arguments next =>
    Action.attempt (call ev p fuel none name arguments) fun result =>
      perform ev p fuel (next result)
  | fuel + 1, .evaluate e bindings next =>
    Action.attempt (Action.inScopes [.ofList bindings] (eval ev p fuel e)) fun result =>
      perform ev p fuel (next result)

end

/-- Evaluate an expression with the given bindings alone in scope. -/
def evaluate (ev : Evaluator) (p : Program) (fuel : Nat) (e : Expr)
    (bindings : List (String × Float) := []) : Action Float :=
  Action.inScopes [.ofList bindings] (eval ev p fuel e)

/-- Evaluate formulas one after the other, and write the results if asked to. -/
def evaluateAll (ev : Evaluator) (p : Program) (fuel : Nat) : List Expr → Action (List Float)
  | [] => pure []
  | e :: rest => do
    let x ← evaluate ev p fuel e
    if ev.printsResults then Standard.writeNumber x
    let xs ← evaluateAll ev p fuel rest
    return x :: xs

/-- Evaluate the formulas of a program. -/
def run (ev : Evaluator) (p : Program) (fuel : Nat) : Action (List Float) :=
  evaluateAll ev p fuel p.expressions

/-- Call a function of a program from outside. -/
def callNamed (ev : Evaluator) (p : Program) (fuel : Nat) (name : String)
    (values : List Float) : Action Float :=
  call ev p fuel none name values

end Evaluator

end Formulary
