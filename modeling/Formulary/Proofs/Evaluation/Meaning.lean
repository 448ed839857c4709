import Formulary.Evaluation.Basic

/-!
# What expressions mean

A big-step semantics without scopes: an environment says which variables have values, and a part of
an expression is given the environment that it sees. Nothing is opened, closed or changed, so nothing
has to be put back. Each relation ends in a result, which is a value or a fault, and in the text that
was written up to there; what has no result has no derivation. The number in front counts the calls
of defined functions under way.
-/

namespace Formulary.Evaluation

/-- The values of the variables that are bound. -/
abbrev Env := String → Option Float

namespace Env

/-- No variable is bound. -/
def empty : Env := fun _ => none

/-- One more binding, which hides another one of the same name. -/
def bind (env : Env) (name : String) (x : Float) : Env :=
  fun other => if other = name then some x else env other

/-- The given bindings alone; where a name is repeated the last one counts. -/
def ofBindings (bindings : List (String × Float)) : Env :=
  bindings.foldl (fun env b => env.bind b.1 b.2) empty

end Env

/-- What counts as false: the two zeros, and what is no number. -/
def IsFalse (x : Float) : Prop := x.isNaN = true ∨ (x == 0.0) = true

example : IsFalse 0.0 ∧ IsFalse (-0.0) ∧ IsFalse (0.0 / 0.0) := by
  unfold IsFalse
  decide

/-- What a standard function answers, and what it writes. -/
def Standard.effect (name : String) : Standard → List Float → Except Fault Float × String
  | unary f, [x] => (.ok (f x), "")
  | binary f, [x, y] => (.ok (f x y), "")
  | printNumber, [x] => (.ok 0.0, Number.fixed x ++ "\n")
  | printCharacter, [x] =>
    if x.isFinite then (.ok 0.0, (Char.ofNat (Number.truncate x % 256).toNat).toString)
    else (.error (.failed (.invalidArgument name x)), "")
  | _, _ => (.error (.failed (.unboundExtern name none)), "")

/-- What the meaning of an expression depends on besides the variables: the program, the outside
functions added to the standard ones, and the limit on calls under way. -/
structure Setting where
  program : Program
  added : NameTable (List Float → Routine) := {}
  callLimit : Int := defaultCallLimit

/-- An evaluator made for a setting. -/
def Setting.evaluator (w : Setting) (printsResults : Bool) : Evaluator :=
  .ofProgram w.program w.added w.callLimit printsResults

mutual

/-- What an expression comes to. -/
inductive Evaluates (w : Setting) : Nat → Env → Expr → Except Fault Float → String → Prop where
  | number {n env value span} : Evaluates w n env (.number value span) (.ok value) ""
  | var {n env name span x} (bound : env name = some x) :
    Evaluates w n env (.var name span) (.ok x) ""
  | unbound {n env name span} (free : env name = none) :
    Evaluates w n env (.var name span)
      (.error (.unresolved
        { cause := .unknownVariable name, location := span.map Span.first,
          node := some (.var name span) })) ""
  | binary {n env op left right span x y out}
    (operands : EvaluatesAll w n env [left, right] (.ok [x, y]) out) :
    Evaluates w n env (.binary op left right span) (.ok (op.apply x y)) out
  | binaryFault {n env op left right span f out}
    (operands : EvaluatesAll w n env [left, right] (.error f) out) :
    Evaluates w n env (.binary op left right span) (.error f) out
  | call {n env name arguments span values r out more}
    (given : EvaluatesAll w n env arguments (.ok values) out)
    (called : Calls w n (some (.call name arguments span)) name values r more) :
    Evaluates w n env (.call name arguments span) r (out ++ more)
  | callFault {n env name arguments span f out}
    (given : EvaluatesAll w n env arguments (.error f) out) :
    Evaluates w n env (.call name arguments span) (.error f) out
  | condTrue {n env condition consequent alternative span x r out more}
    (tested : Evaluates w n env condition (.ok x) out) (holds : ¬ IsFalse x)
    (chosen : Evaluates w n env consequent r more) :
    Evaluates w n env (.cond condition consequent alternative span) r (out ++ more)
  | condFalse {n env condition consequent alternative span x r out more}
    (tested : Evaluates w n env condition (.ok x) out) (fails : IsFalse x)
    (chosen : Evaluates w n env alternative r more) :
    Evaluates w n env (.cond condition consequent alternative span) r (out ++ more)
  | condFault {n env condition consequent alternative span f out}
    (tested : Evaluates w n env condition (.error f) out) :
    Evaluates w n env (.cond condition consequent alternative span) (.error f) out
  | loop {n env name start stop step body span x r out more}
    (started : Evaluates w n env start (.ok x) out)
    (turned : Turns w n env name stop step body x r more) :
    Evaluates w n env (.loop name start stop step body span) r (out ++ more)
  | loopFault {n env name start stop step body span f out}
    (started : Evaluates w n env start (.error f) out) :
    Evaluates w n env (.loop name start stop step body span) (.error f) out

/-- What expressions come to, each evaluated once and from left to right, up to the first fault. -/
inductive EvaluatesAll (w : Setting) :
    Nat → Env → List Expr → Except Fault (List Float) → String → Prop where
  | nil {n env} : EvaluatesAll w n env [] (.ok []) ""
  | cons {n env e rest x xs out more} (first : Evaluates w n env e (.ok x) out)
    (others : EvaluatesAll w n env rest (.ok xs) more) :
    EvaluatesAll w n env (e :: rest) (.ok (x :: xs)) (out ++ more)
  | fault {n env e rest f out} (first : Evaluates w n env e (.error f) out) :
    EvaluatesAll w n env (e :: rest) (.error f) out
  | later {n env e rest x f out more} (first : Evaluates w n env e (.ok x) out)
    (others : EvaluatesAll w n env rest (.error f) more) :
    EvaluatesAll w n env (e :: rest) (.error f) (out ++ more)

/-- What the turns of a loop come to from a value of its variable on. In each turn the variable is
bound to its value, and body, step and end are evaluated; without a step it is one. The last turn is
the first whose end is false. -/
inductive Turns (w : Setting) : Nat → Env → String → Expr → Option Expr → Expr → Float →
    Except Fault Float → String → Prop where
  | fault {n env name stop step body x f out}
    (turn : EvaluatesAll w n (env.bind name x) [body, step.getD (.number 1.0 none), stop]
      (.error f) out) :
    Turns w n env name stop step body x (.error f) out
  | last {n env name stop step body x value size goesOn out}
    (turn : EvaluatesAll w n (env.bind name x) [body, step.getD (.number 1.0 none), stop]
      (.ok [value, size, goesOn]) out) (ends : IsFalse goesOn) :
    Turns w n env name stop step body x (.ok 0.0) out
  | next {n env name stop step body x value size goesOn r out more}
    (turn : EvaluatesAll w n (env.bind name x) [body, step.getD (.number 1.0 none), stop]
      (.ok [value, size, goesOn]) out) (goes : ¬ IsFalse goesOn)
    (others : Turns w n env name stop step body (x + size) r more) :
    Turns w n env name stop step body x r (out ++ more)

/-- What the call of a function with values comes to. The name, the number of values and the limit
are checked, in this order. The latest declaration of the name decides: the body of a definition is
evaluated with its parameters as the only bindings, and for any other function an added routine is
performed or a standard function carried out. -/
inductive Calls (w : Setting) : Nat → Option Expr → String → List Float → Except Fault Float →
    String → Prop where
  | unknown {n node name values} (undeclared : w.program.declaration? name = none) :
    Calls w n node name values
      (.error (Evaluator.callFault node (.unknownFunction name []))) ""
  | mismatch {n node name values d} (declared : w.program.declaration? name = some d)
    (arity : d.prototype.arity ≠ values.length) :
    Calls w n node name values
      (.error (Evaluator.callFault node (.arityMismatch name d.prototype.arity values.length))) ""
  | tooDeep {n : Nat} {node name values d rank}
    (declared : w.program.declaration? name = some (.definition d rank))
    (arity : d.prototype.arity = values.length) (depth : w.callLimit ≤ n) :
    Calls w n node name values (.error (.failed (.callDepthExceeded name w.callLimit))) ""
  | body {n : Nat} {node name values d rank r out}
    (declared : w.program.declaration? name = some (.definition d rank))
    (arity : d.prototype.arity = values.length) (depth : n < w.callLimit)
    (run : Evaluates w (n + 1) (.ofBindings (d.prototype.params.zip values)) d.body r out) :
    Calls w n node name values r out
  | added {n node name values q routine r out}
    (declared : w.program.declaration? name = some (.foreign q)) (arity : q.arity = values.length)
    (found : w.added.get? name = some routine) (run : Performs w n (routine values) r out) :
    Calls w n node name values r out
  | standard {n node name values q standard}
    (declared : w.program.declaration? name = some (.foreign q)) (arity : q.arity = values.length)
    (found : w.added.get? name = none) (known : Standard.find? name = some standard)
    (own : standard.arity = q.arity) :
    Calls w n node name values (standard.effect name values).1 (standard.effect name values).2
  | refused {n node name values q standard}
    (declared : w.program.declaration? name = some (.foreign q)) (arity : q.arity = values.length)
    (found : w.added.get? name = none) (known : Standard.find? name = some standard)
    (own : standard.arity ≠ q.arity) :
    Calls w n node name values
      (.error (.failed (.unboundExtern name (some
        s!"declared with {q.arity} parameters, builtin takes {standard.arity}")))) ""
  | unbound {n node name values q}
    (declared : w.program.declaration? name = some (.foreign q)) (arity : q.arity = values.length)
    (found : w.added.get? name = none) (known : Standard.find? name = none) :
    Calls w n node name values (.error (.failed (.unboundExtern name none))) ""

/-- What an added routine comes to: it answers, or it has a call or an expression evaluated, with the
bindings that it gives and no others, and goes on with what that comes to, a fault included. -/
inductive Performs (w : Setting) : Nat → Routine → Except Fault Float → String → Prop where
  | done {n r} : Performs w n (.done r) r ""
  | call {n name arguments next r r' out more} (called : Calls w n none name arguments r out)
    (goesOn : Performs w n (next r) r' more) :
    Performs w n (.call name arguments next) r' (out ++ more)
  | evaluate {n e bindings next r r' out more}
    (evaluated : Evaluates w n (.ofBindings bindings) e r out)
    (goesOn : Performs w n (next r) r' more) :
    Performs w n (.evaluate e bindings next) r' (out ++ more)

end

end Formulary.Evaluation
