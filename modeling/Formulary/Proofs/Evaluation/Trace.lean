import Formulary.Evaluation.Stacked
import Formulary.Proofs.Evaluation.Dispatch
import Formulary.Proofs.Evaluation.Session

/-!
# Traces of evaluation

An evaluation begins the bodies of definitions, ends them, and is refused some. A `Traced` action is
an action together with these events, from any state in which it may be carried out; the evaluator
with events is the evaluator, step by step, in which each step says what happens. An evaluation that
runs out of fuel has the events up to there. Main statement: without its events it is the evaluator
(`erases_within`, `Use.traced_action`), so that what is shown of the events is shown of its
evaluations.
-/

namespace Formulary

open Evaluation

namespace Evaluation

/-- What happens after an outcome, depending on its result and its state; nothing if it is out of
fuel. -/
def Outcome.sequel {α : Type} (o : Outcome α) (next : Except Fault α → State → List Event) :
    List Event :=
  match o with
  | .value x after => next (.ok x) after
  | .fault f after => next (.error f) after
  | .outOfFuel => []

@[simp] theorem Outcome.sequel_ended {α : Type} (r : Except Fault α) (after : State)
    (next : Except Fault α → State → List Event) : (ended r after).sequel next = next r after := by
  cases r <;> rfl

/-- An action with the events of carrying it out. -/
@[ext]
structure Traced (α : Type) where
  action : Action α
  events : State → List Event

namespace Traced

variable {α β : Type}

/-- An action in which nothing happens to a body. -/
def quiet (a : Action α) : Traced α := ⟨a, fun _ => []⟩

/-- Carry out one action after another. The events of the second follow where the first has a
value. -/
protected def bind (t : Traced α) (f : α → Traced β) : Traced β where
  action := t.action >>= fun x => (f x).action
  events s := t.events s ++ (t.action s).sequel fun
    | .ok x, after => (f x).events after
    | .error _, _ => []

instance : Monad Traced where
  pure x := quiet (pure x)
  bind := Traced.bind

/-- Carry out an action in other scopes. -/
def inScopes (scopes : List Frame) (t : Traced α) : Traced α where
  action := Action.inScopes scopes t.action
  events s := t.events { s with scopes }

/-- Carry out an action in a new innermost scope. -/
def inFrame (frame : Frame) (t : Traced α) : Traced α where
  action := Action.inFrame frame t.action
  events s := t.events (s.inFrame frame)

/-- Carry out an action and go on whether it ends with a value or with a fault. -/
def attempt (t : Traced α) (next : Except Fault α → Traced β) : Traced β where
  action := Action.attempt t.action fun r => (next r).action
  events s := t.events s ++ (t.action s).sequel fun r after => (next r).events after

/-- Carry out an action as the body of a definition. -/
def asBody (d : Definition) (t : Traced α) : Traced α where
  action := Action.asCall t.action
  events s := .begins d :: t.events { s with activeCalls := s.activeCalls + 1 } ++
    (t.action { s with activeCalls := s.activeCalls + 1 }).sequel fun _ _ => [.ends]

/-- Stop with a fault before the body of a definition. -/
def refuse (d : Definition) (f : Fault) : Traced α := ⟨.stop f, fun _ => [.refused d]⟩

@[simp] theorem quiet_action (a : Action α) : (quiet a).action = a := rfl

@[simp] theorem pure_action (x : α) : (pure x : Traced α).action = pure x := rfl

@[simp] theorem bind_action (t : Traced α) (f : α → Traced β) :
    (t >>= f).action = t.action >>= fun x => (f x).action := rfl

@[simp] theorem inScopes_action (scopes : List Frame) (t : Traced α) :
    (t.inScopes scopes).action = Action.inScopes scopes t.action := rfl

@[simp] theorem inFrame_action (frame : Frame) (t : Traced α) :
    (t.inFrame frame).action = Action.inFrame frame t.action := rfl

@[simp] theorem attempt_action (t : Traced α) (next : Except Fault α → Traced β) :
    (t.attempt next).action = Action.attempt t.action fun r => (next r).action := rfl

@[simp] theorem asBody_action (d : Definition) (t : Traced α) :
    (t.asBody d).action = Action.asCall t.action := rfl

@[simp] theorem refuse_action (d : Definition) (f : Fault) :
    (refuse d f : Traced α).action = .stop f := rfl

/-- A sequence goes on after a value and stops after a fault. -/
theorem bind_eq_attempt (t : Traced α) (f : α → Traced β) : t >>= f = t.attempt fun
    | .ok x => f x
    | .error e => quiet (.stop e) := by
  apply Traced.ext
  · funext s
    change Action.bind t.action (fun x => (f x).action) s = _
    rw [attempt_action, Action.bind, Action.attempt]
    cases t.action s <;> rfl
  · funext s
    change t.events s ++ _ = t.events s ++ _
    congr 2
    funext r after
    cases r <;> rfl

end Traced

end Evaluation

namespace Evaluator

/-! ### The evaluator with events -/

section

variable (ev : Evaluator) (p : Program)

mutual

/-- Evaluate an expression. -/
def evalTraced : Nat → Expr → Traced Float
  | 0, _ => .quiet .outOfFuel
  | _ + 1, .number value _ => pure value
  | fuel + 1, .var name span => .quiet (eval ev p (fuel + 1) (.var name span))
  | fuel + 1, .binary op left right _ => do
    let x ← evalTraced fuel left
    let y ← evalTraced fuel right
    return op.apply x y
  | fuel + 1, .call name arguments span => do
    let values ← evalAllTraced fuel arguments
    callTraced fuel (some (.call name arguments span)) name values
  | fuel + 1, .cond condition consequent alternative _ => do
    let x ← evalTraced fuel condition
    if isTrue x then evalTraced fuel consequent else evalTraced fuel alternative
  | fuel + 1, .loop name start stop step body _ => do
    let x ← evalTraced fuel start
    Traced.inFrame (.ofList [(name, x)]) (turnTraced fuel name stop step body)

/-- Evaluate expressions from left to right. -/
def evalAllTraced : Nat → List Expr → Traced (List Float)
  | 0, _ => .quiet .outOfFuel
  | _ + 1, [] => pure []
  | fuel + 1, e :: rest => do
    let x ← evalTraced fuel e
    let xs ← evalAllTraced fuel rest
    return x :: xs

/-- One turn of a loop, and the turns after it. -/
def turnTraced : Nat → String → Expr → Option Expr → Expr → Traced Float
  | 0, _, _, _, _ => .quiet .outOfFuel
  | fuel + 1, name, stop, step, body => do
    let _ ← evalTraced fuel body
    let size ← (match step with
      | none => pure 1.0
      | some e => evalTraced fuel e : Traced Float)
    let goesOn ← evalTraced fuel stop
    Traced.quiet (Action.increase name size)
    if isTrue goesOn then turnTraced fuel name stop step body else return 0.0

/-- Call a function with values. Only the body of a definition is begun or refused. -/
def callTraced : Nat → Option Expr → String → List Float → Traced Float
  | 0, _, _, _ => .quiet .outOfFuel
  | fuel + 1, node, name, values =>
    match ev.target p node name values with
    | .fault f => .quiet (.stop f)
    | .body d scope => do
      let s ← Traced.quiet Action.state
      if ev.callLimit ≤ s.activeCalls then .refuse d (.failed (.callDepthExceeded name ev.callLimit))
      else .asBody d (.inScopes [scope] (evalTraced fuel d.body))
    | .routine routine => performTraced fuel routine
    | .standard standard => .quiet (ev.invoke name standard values)

/-- Carry out an added outside function. -/
def performTraced : Nat → Routine → Traced Float
  | 0, _ => .quiet .outOfFuel
  | _ + 1, .done (.ok x) => pure x
  | _ + 1, .done (.error f) => .quiet (.stop f)
  | fuel + 1, .call name arguments next =>
    .attempt (callTraced fuel none name arguments) fun result => performTraced fuel (next result)
  | fuel + 1, .evaluate e bindings next =>
    .attempt (.inScopes [.ofList bindings] (evalTraced fuel e)) fun result =>
      performTraced fuel (next result)

end

/-- Evaluate an expression with the given bindings alone in scope. -/
def evaluateTraced (fuel : Nat) (e : Expr) (bindings : List (String × Float) := []) :
    Traced Float :=
  .inScopes [.ofList bindings] (evalTraced ev p fuel e)

/-- Evaluate formulas one after the other, and write the results if asked to. -/
def evaluateAllTraced (fuel : Nat) : List Expr → Traced (List Float)
  | [] => pure []
  | e :: rest => do
    let x ← evaluateTraced ev p fuel e
    Traced.quiet (ev.writeResult x)
    let xs ← evaluateAllTraced fuel rest
    return x :: xs

/-- Carry out a use of an evaluator. -/
def Use.traced (fuel : Nat) : Use → Traced (List Float)
  | run => evaluateAllTraced ev p fuel p.expressions
  | evaluate e bindings => do
    let x ← evaluateTraced ev p fuel e bindings
    return [x]
  | call name values => do
    let x ← callTraced ev p fuel none name values
    return [x]

end

/-! ### Without its events it is the evaluator -/

/-- With some fuel, evaluation without its events is evaluation. -/
structure ErasesWithin (ev : Evaluator) (p : Program) (fuel : Nat) : Prop where
  expression : ∀ e, (evalTraced ev p fuel e).action = eval ev p fuel e
  expressions : ∀ es, (evalAllTraced ev p fuel es).action = evalAll ev p fuel es
  turn : ∀ name stop step body,
    (turnTraced ev p fuel name stop step body).action = turn ev p fuel name stop step body
  call : ∀ node name values,
    (callTraced ev p fuel node name values).action = call ev p fuel node name values
  perform : ∀ routine, (performTraced ev p fuel routine).action = perform ev p fuel routine

namespace ErasesWithin

variable {ev : Evaluator} {p : Program} {fuel : Nat}

/-- Without fuel there is nothing to erase. -/
theorem zero (ev : Evaluator) (p : Program) : ErasesWithin ev p 0 := by
  constructor
  · intro e
    cases e <;> rfl
  · intro es
    cases es <;> rfl
  · intros
    rfl
  · intros
    rfl
  · intro routine
    cases routine <;> rfl

section

variable (within : ErasesWithin ev p fuel)

include within

theorem expression_succ (e : Expr) :
    (evalTraced ev p (fuel + 1) e).action = eval ev p (fuel + 1) e := by
  cases e with
  | number value span => rfl
  | var name span => rfl
  | binary op left right span =>
    rw [evalTraced, eval]
    simp only [Traced.bind_action, Traced.pure_action, within.expression]
  | call name arguments span =>
    rw [evalTraced, eval]
    simp only [Traced.bind_action, within.expressions, within.call]
  | cond condition consequent alternative span =>
    rw [evalTraced, eval]
    simp only [Traced.bind_action, within.expression, apply_ite Traced.action]
  | loop name start stop step body span =>
    rw [evalTraced, eval]
    simp only [Traced.bind_action, Traced.inFrame_action, within.expression, within.turn]

theorem expressions_succ (es : List Expr) :
    (evalAllTraced ev p (fuel + 1) es).action = evalAll ev p (fuel + 1) es := by
  cases es with
  | nil => rfl
  | cons e rest =>
    rw [evalAllTraced, evalAll]
    simp only [Traced.bind_action, Traced.pure_action, within.expression, within.expressions]

theorem turn_succ (name : String) (stop : Expr) (step : Option Expr) (body : Expr) :
    (turnTraced ev p (fuel + 1) name stop step body).action =
      Evaluator.turn ev p (fuel + 1) name stop step body := by
  cases step <;>
  · rw [turnTraced, Evaluator.turn]
    simp only [Traced.bind_action, Traced.pure_action, Traced.quiet_action, within.expression,
      within.turn, apply_ite Traced.action]

theorem call_succ (node : Option Expr) (name : String) (values : List Float) :
    (callTraced ev p (fuel + 1) node name values).action =
      Evaluator.call ev p (fuel + 1) node name values := by
  rw [callTraced, Evaluator.call_succ]
  cases ev.target p node name values with
  | fault f => rfl
  | body d scope =>
    simp only [Traced.bind_action, Traced.quiet_action, apply_ite Traced.action,
      Traced.refuse_action, Traced.asBody_action, Traced.inScopes_action, within.expression]
  | routine routine => exact within.perform routine
  | standard standard => rfl

theorem perform_succ (routine : Routine) :
    (performTraced ev p (fuel + 1) routine).action = Evaluator.perform ev p (fuel + 1) routine := by
  cases routine with
  | done answer => cases answer <;> rfl
  | call name arguments next =>
    rw [performTraced, Evaluator.perform]
    simp only [Traced.attempt_action, within.call, within.perform]
  | evaluate e bindings next =>
    rw [performTraced, Evaluator.perform]
    simp only [Traced.attempt_action, Traced.inScopes_action, within.expression, within.perform]

end

end ErasesWithin

/-- Evaluation without its events is evaluation, whatever the fuel. -/
theorem erases_within (ev : Evaluator) (p : Program) (fuel : Nat) : ErasesWithin ev p fuel := by
  induction fuel with
  | zero => exact .zero ev p
  | succ fuel within =>
    constructor
    · exact within.expression_succ
    · exact within.expressions_succ
    · exact within.turn_succ
    · exact within.call_succ
    · exact within.perform_succ

section

variable (ev : Evaluator) (p : Program) (fuel : Nat)

theorem evaluateTraced_action (e : Expr) (bindings : List (String × Float)) :
    (evaluateTraced ev p fuel e bindings).action = ev.evaluate p fuel e bindings := by
  rw [evaluateTraced, Traced.inScopes_action, (erases_within ev p fuel).expression]
  rfl

theorem evaluateAllTraced_action (es : List Expr) :
    (evaluateAllTraced ev p fuel es).action = ev.evaluateAll p fuel es := by
  induction es with
  | nil => rfl
  | cons e rest ih =>
    rw [evaluateAllTraced, evaluateAll_cons]
    simp only [Traced.bind_action, Traced.pure_action, Traced.quiet_action,
      evaluateTraced_action, ih]

/-- A use without its events is the use. -/
theorem Use.traced_action (use : Use) : (use.traced ev p fuel).action = use.perform ev p fuel := by
  cases use with
  | run => exact evaluateAllTraced_action ev p fuel p.expressions
  | evaluate e bindings =>
    rw [Use.traced, Use.perform, Traced.bind_action, evaluateTraced_action]
    rfl
  | call name values =>
    rw [Use.traced, Use.perform, Traced.bind_action, (erases_within ev p fuel).call]
    rfl

end

/-! ### Calls of definitions -/

section

variable {ev : Evaluator} {p : Program} {node : Option Expr} {name : String} {values : List Float}
  {d : Definition} {scope : Frame} {s : State} (h : ev.target p node name values = .body d scope)

include h

/-- A call that leads to a body begins it below the limit. -/
theorem callTraced_begins (fuel : Nat) (hlimit : s.activeCalls < ev.callLimit) :
    ∃ more, (callTraced ev p (fuel + 1) node name values).events s = .begins d :: more := by
  rw [callTraced, h]
  change ∃ more, (if ev.callLimit ≤ s.activeCalls then _ else _ : Traced Float).events s = _
  rw [if_neg (Int.not_le.mpr hlimit)]
  exact ⟨_, rfl⟩

end

end Evaluator

end Formulary
