import Formulary.Proofs.Evaluation.Built
import Formulary.Proofs.Evaluation.Report

/-!
# The evaluator keeps to the meaning

Whatever an evaluation ends with is a report on the state in which it began, of a result and a text
that the semantics without scopes gives for the variables in force and the calls under way there
(`RefinesWithin`). The proof is by induction on the fuel. A loop is compared as a whole, frame and all,
since its turns change a scope and only the loop closes it.
-/

namespace Formulary

open Evaluation

namespace Evaluation

/-- The test of a condition fails for exactly what counts as false. -/
theorem isTrue_eq_false_iff (x : Float) : isTrue x = false ↔ IsFalse x := by
  unfold isTrue IsFalse bne
  cases x.isNaN <;> cases x == 0.0 <;> simp

/-- The test of a condition succeeds for all else. -/
theorem isTrue_iff (x : Float) : isTrue x = true ↔ ¬ IsFalse x := by
  rw [← isTrue_eq_false_iff, Bool.not_eq_false]

/-- A standard function reports its answer and what it writes. -/
theorem Standard.invoke_eq_report (standard : Standard) (name : String) (values : List Float)
    (s : State) : standard.invoke name values s =
      Outcome.report s (standard.effect name values).2 (standard.effect name values).1 := by
  unfold Standard.invoke
  split
  · exact Outcome.pure_eq_report _ s
  · exact Outcome.pure_eq_report _ s
  · rfl
  · next x =>
    simp only [Standard.writeCharacter, Standard.effect]
    by_cases hx : x.isFinite = true
    · rw [if_pos hx, if_pos hx]
      rfl
    · rw [if_neg hx, if_neg hx]
      exact Outcome.stop_eq_report _ s
  · rw [Standard.effect]
    · exact Outcome.stop_eq_report _ s
    all_goals assumption

section

variable {w : Setting} {n : Nat} {env : Env}

/-- Two parts are evaluated one after the other. -/
theorem EvaluatesAll.pair {a b : Expr} {x y : Float} {out more : String}
    (ha : Evaluates w n env a (.ok x) out) (hb : Evaluates w n env b (.ok y) more) :
    EvaluatesAll w n env [a, b] (.ok [x, y]) (out ++ more) := by
  have h := EvaluatesAll.cons ha (.cons hb .nil)
  rwa [String.append_empty] at h

/-- The second of two parts fails. -/
theorem EvaluatesAll.second {a b : Expr} {c : List Expr} {x : Float} {f : Fault}
    {out more : String} (ha : Evaluates w n env a (.ok x) out)
    (hb : Evaluates w n env b (.error f) more) :
    EvaluatesAll w n env (a :: b :: c) (.error f) (out ++ more) :=
  .later ha (.fault hb)

/-- Three parts are evaluated one after the other. -/
theorem EvaluatesAll.triple {a b c : Expr} {x y z : Float} {out more rest : String}
    (ha : Evaluates w n env a (.ok x) out) (hb : Evaluates w n env b (.ok y) more)
    (hc : Evaluates w n env c (.ok z) rest) :
    EvaluatesAll w n env [a, b, c] (.ok [x, y, z]) (out ++ (more ++ rest)) :=
  .cons ha (.pair hb hc)

end

end Evaluation

namespace Evaluator

/-! ### Turns of a loop -/

section

variable (ev : Evaluator) (p : Program) (fuel : Nat)

/-- The step of a loop, one if it has none. -/
def stepSize : Option Expr → Action Float
  | none => pure 1.0
  | some e => eval ev p fuel e

/-- What a turn evaluates: body, step and end. -/
def turnParts (stop : Expr) (step : Option Expr) (body : Expr) : Action (Float × Float × Float) := do
  let value ← eval ev p fuel body
  let size ← stepSize ev p fuel step
  let goesOn ← eval ev p fuel stop
  return (value, size, goesOn)

/-- A turn evaluates its parts, adds the step, and goes on while the end was true. -/
theorem turn_eq (name : String) (stop : Expr) (step : Option Expr) (body : Expr) :
    turn ev p (fuel + 1) name stop step body = (do
      let parts ← turnParts ev p fuel stop step body
      Action.increase name parts.2.1
      if isTrue parts.2.2 then turn ev p fuel name stop step body else return 0.0) := by
  have hparts : turn ev p (fuel + 1) name stop step body = (do
      let _ ← eval ev p fuel body
      let size ← stepSize ev p fuel step
      let goesOn ← eval ev p fuel stop
      Action.increase name size
      if isTrue goesOn then turn ev p fuel name stop step body else return 0.0) := by
    cases step <;> rfl
  rw [hparts, turnParts]
  simp only [Action.bind_assoc, Action.pure_bind]

variable {ev p fuel} {name : String} {stop : Expr} {step : Option Expr} {body : Expr} {x : Float}
  {s : State}

/-- The variable of a loop is increased in its frame. -/
theorem increase_inFrame (size : Float) :
    Action.increase name size (s.inFrame (.ofList [(name, x)])) =
      .value () (s.inFrame (.ofList [(name, x + size)])) := by
  have hvalue : (NameTable.ofList [(name, x)]).get? name = some x := NameTable.get?_insert_self _ _ _
  have hinsert : (NameTable.ofList [(name, x)]).insert name (x + size) =
      .ofList [(name, x + size)] := by
    simp [NameTable.ofList, NameTable.insert, NameTable.enter]
  simp only [Action.increase, State.inFrame, hvalue, hinsert]

/-- A loop whose turn runs out of fuel does. -/
theorem inFrame_turn_outOfFuel
    (h : turnParts ev p fuel stop step body (s.inFrame (.ofList [(name, x)])) = .outOfFuel) :
    Action.inFrame (.ofList [(name, x)]) (turn ev p (fuel + 1) name stop step body) s =
      .outOfFuel := by
  rw [turn_eq]
  change Action.mapState _ (Action.bind _ _ (s.inFrame (.ofList [(name, x)]))) = _
  rw [Action.bind, h]
  rfl

/-- A loop whose turn ends with a fault ends with it. -/
theorem inFrame_turn_fault {f : Fault} {out : String}
    (h : turnParts ev p fuel stop step body (s.inFrame (.ofList [(name, x)])) =
      Outcome.report (s.inFrame (.ofList [(name, x)])) out (.error f)) :
    Action.inFrame (.ofList [(name, x)]) (turn ev p (fuel + 1) name stop step body) s =
      Outcome.report s out (.error f) := by
  rw [turn_eq]
  change Action.mapState _ (Action.bind _ _ (s.inFrame (.ofList [(name, x)]))) = _
  rw [Action.bind, h]
  rfl

/-- A loop whose turn has values goes on behind the text of the turn, with its variable increased,
or ends. -/
theorem inFrame_turn_value {value size goesOn : Float} {out : String}
    (h : turnParts ev p fuel stop step body (s.inFrame (.ofList [(name, x)])) =
      Outcome.report (s.inFrame (.ofList [(name, x)])) out (.ok (value, size, goesOn))) :
    Action.inFrame (.ofList [(name, x)]) (turn ev p (fuel + 1) name stop step body) s =
      if isTrue goesOn then
        Action.inFrame (.ofList [(name, x + size)]) (turn ev p fuel name stop step body)
          (s.wrote out)
      else Outcome.report s out (.ok 0.0) := by
  rw [turn_eq]
  change Action.mapState _ (Action.bind _ _ (s.inFrame (.ofList [(name, x)]))) = _
  rw [Action.bind, h]
  change Action.mapState _ (Action.bind (Action.increase name size) _
    ((s.wrote out).inFrame (.ofList [(name, x)]))) = _
  rw [Action.bind, increase_inFrame]
  simp only
  split <;> rfl

end

/-! ### Calls -/

section

variable {w : Setting} {printsResults : Bool} {fuel : Nat} {node : Option Expr} {name : String}
  {values : List Float}

/-- A call of a name that is not declared. -/
theorem call_undeclared (undeclared : w.program.declaration? name = none) :
    call (w.evaluator printsResults) w.program (fuel + 1) node name values =
      .stop (callFault node (.unknownFunction name [])) := by
  rw [call, Program.prototype?, undeclared]
  rfl

/-- A call with another number of values than declared. -/
theorem call_mismatch {d : Declaration} (declared : w.program.declaration? name = some d)
    (arity : d.prototype.arity ≠ values.length) :
    call (w.evaluator printsResults) w.program (fuel + 1) node name values =
      .stop (callFault node (.arityMismatch name d.prototype.arity values.length)) := by
  rw [call, Program.prototype?, declared]
  exact if_pos arity

/-- A call of a definition, within the limit or not. -/
theorem call_definition (hp : w.program.Built) {d : Definition} {rank : Nat}
    (declared : w.program.declaration? name = some (.definition d rank))
    (arity : d.prototype.arity = values.length) (s : State) :
    call (w.evaluator printsResults) w.program (fuel + 1) node name values s =
      if w.callLimit ≤ s.activeCalls then
        Action.stop (.failed (.callDepthExceeded name w.callLimit)) s
      else
        Action.asCall (Action.inScopes [.ofList (d.prototype.params.zip values)]
          (eval (w.evaluator printsResults) w.program fuel d.body)) s := by
  have hdefinition : (w.evaluator printsResults).definition? w.program name = _ :=
    definition?_ofProgram hp w.added w.callLimit printsResults name
  rw [call, hdefinition, Program.prototype?, declared]
  simp only [Option.map_some, Declaration.prototype]
  rw [if_neg (not_not_intro arity)]
  have hlimit : (w.evaluator printsResults).callLimit = w.callLimit := rfl
  change Action.bind Action.state _ s = _
  simp only [Action.bind, Action.state, hlimit]
  split <;> rfl

/-- A call of a function from outside. -/
theorem call_foreign (hp : w.program.Built) {q : Prototype}
    (declared : w.program.declaration? name = some (.foreign q))
    (arity : q.arity = values.length) :
    call (w.evaluator printsResults) w.program (fuel + 1) node name values =
      match w.added.get? name with
      | some routine => perform (w.evaluator printsResults) w.program fuel (routine values)
      | none =>
        match Standard.find? name with
        | some standard =>
          if standard.arity ≠ q.arity then standard.refuse name q.arity
          else standard.invoke name values
        | none => .stop (.failed (.unboundExtern name none)) := by
  have hdefinition : (w.evaluator printsResults).definition? w.program name = _ :=
    definition?_ofProgram hp w.added w.callLimit printsResults name
  rw [call, hdefinition, Program.prototype?, declared]
  simp only [Option.map_some, Declaration.prototype]
  rw [if_neg (not_not_intro arity)]
  rfl

end

/-! ### Within some fuel -/

/-- Evaluation with some fuel reports what the semantics gives. -/
structure RefinesWithin (w : Setting) (printsResults : Bool) (fuel : Nat) : Prop where
  expression : ∀ e s, (eval (w.evaluator printsResults) w.program fuel e s).Reports s
    (Evaluates w s.activeCalls s.env e)
  expressions : ∀ es s, (evalAll (w.evaluator printsResults) w.program fuel es s).Reports s
    (EvaluatesAll w s.activeCalls s.env es)
  turn : ∀ name stop step body x s,
    (Action.inFrame (.ofList [(name, x)])
      (turn (w.evaluator printsResults) w.program fuel name stop step body) s).Reports s
    (Turns w s.activeCalls s.env name stop step body x)
  call : ∀ node name values s,
    (call (w.evaluator printsResults) w.program fuel node name values s).Reports s
      (Calls w s.activeCalls node name values)
  perform : ∀ routine s,
    (perform (w.evaluator printsResults) w.program fuel routine s).Reports s
      (Performs w s.activeCalls routine)

namespace RefinesWithin

/-- Without fuel nothing is reported. -/
theorem zero (w : Setting) (printsResults : Bool) : RefinesWithin w printsResults 0 := by
  constructor
  · intro e s
    cases e <;> exact .inl rfl
  · intro es s
    cases es <;> exact .inl rfl
  · intros
    exact .inl rfl
  · intros
    exact .inl rfl
  · intro routine s
    cases routine <;> exact .inl rfl

variable {w : Setting} {printsResults : Bool} {fuel : Nat}

section

variable (within : RefinesWithin w printsResults fuel)

include within

/-- With more fuel an expression reports what it means. -/
theorem expression_succ (e : Expr) (s : State) :
    (eval (w.evaluator printsResults) w.program (fuel + 1) e s).Reports s
      (Evaluates w s.activeCalls s.env e) := by
  cases e with
  | number value span => exact .pure .number
  | var name span =>
    rw [eval]
    change Outcome.Reports s _ (Action.bind Action.state _ s)
    simp only [Action.bind, Action.state]
    cases hx : Action.lookup? name s.scopes with
    | some x => exact .pure (.var hx)
    | none => exact .stop (.unbound hx)
  | binary op left right span =>
    refine .bind (within.expression left s) ?_ fun f out hleft => .binaryFault (.fault hleft)
    intro x out hleft
    refine .bind (within.expression right _) ?_
      fun f more hright => .binaryFault (.second hleft hright)
    intro y more hright
    apply Outcome.Reports.pure
    rw [String.append_empty]
    exact .binary (.pair hleft hright)
  | call name arguments span =>
    refine .bind (within.expressions arguments s) ?_ fun f out hgiven => .callFault hgiven
    intro values out hgiven
    exact (within.call _ name values _).mono fun r more hcalled => .call hgiven hcalled
  | cond condition consequent alternative span =>
    refine .bind (within.expression condition s) ?_ fun f out htested => .condFault htested
    intro x out htested
    split
    · next hx =>
      rw [isTrue_iff] at hx
      exact (within.expression consequent _).mono fun r more => .condTrue htested hx
    · next hx =>
      rw [Bool.not_eq_true, isTrue_eq_false_iff] at hx
      exact (within.expression alternative _).mono fun r more => .condFalse htested hx
  | loop name start stop step body span =>
    refine .bind (within.expression start s) ?_ fun f out hstarted => .loopFault hstarted
    intro x out hstarted
    exact (within.turn name stop step body x _).mono fun r more => .loop hstarted

/-- With more fuel expressions report what they mean. -/
theorem expressions_succ (es : List Expr) (s : State) :
    (evalAll (w.evaluator printsResults) w.program (fuel + 1) es s).Reports s
      (EvaluatesAll w s.activeCalls s.env es) := by
  cases es with
  | nil => exact .pure .nil
  | cons e rest =>
    refine .bind (within.expression e s) ?_ fun f out hfirst => .fault hfirst
    intro x out hfirst
    refine .bind (within.expressions rest _) ?_ fun f more hothers => .later hfirst hothers
    intro xs more hothers
    apply Outcome.Reports.pure
    rw [String.append_empty]
    exact .cons hfirst hothers

/-- The parts of a turn report what they mean. -/
theorem parts (stop : Expr) (step : Option Expr) (body : Expr) (s : State) :
    (turnParts (w.evaluator printsResults) w.program fuel stop step body s).Reports s
      fun r => EvaluatesAll w s.activeCalls s.env [body, step.getD (.number 1.0 none), stop]
        (r.map fun values => [values.1, values.2.1, values.2.2]) := by
  have hstep (s : State) :
      (stepSize (w.evaluator printsResults) w.program fuel step s).Reports s
        (Evaluates w s.activeCalls s.env (step.getD (.number 1.0 none))) := by
    cases step with
    | none => exact .pure .number
    | some e => exact within.expression e s
  refine .bind (within.expression body s) ?_ fun f out hbody => .fault hbody
  intro value out hbody
  refine .bind (hstep _) ?_ fun f more hsize => .later hbody (.fault hsize)
  intro size more hsize
  refine .bind (within.expression stop _) ?_
    fun f rest hstop => .later hbody (.later hsize (.fault hstop))
  intro goesOn rest hstop
  apply Outcome.Reports.pure
  rw [String.append_empty]
  exact .triple hbody hsize hstop

/-- With more fuel the turns of a loop report what they mean. -/
theorem turn_succ (name : String) (stop : Expr) (step : Option Expr) (body : Expr) (x : Float)
    (s : State) :
    (Action.inFrame (.ofList [(name, x)])
      (Evaluator.turn (w.evaluator printsResults) w.program (fuel + 1) name stop step body)
      s).Reports s (Turns w s.activeCalls s.env name stop step body x) := by
  have hparts := within.parts stop step body (s.inFrame (.ofList [(name, x)]))
  rw [State.env_inFrame] at hparts
  rcases hparts with hparts | ⟨r, out, hparts, hP⟩
  · exact .inl (inFrame_turn_outOfFuel hparts)
  · cases r with
    | error f => exact .inr ⟨_, out, inFrame_turn_fault hparts, .fault hP⟩
    | ok values =>
      obtain ⟨value, size, goesOn⟩ := values
      rw [inFrame_turn_value hparts]
      split
      · next hgo =>
        rw [isTrue_iff] at hgo
        rcases within.turn name stop step body (x + size) (s.wrote out) with h | ⟨r, more, h, hT⟩
        · exact .inl h
        · exact .inr ⟨r, out ++ more, by rw [h, Outcome.report_wrote], .next hP hgo hT⟩
      · next hgo =>
        rw [Bool.not_eq_true, isTrue_eq_false_iff] at hgo
        exact .inr ⟨_, out, rfl, .last hP hgo⟩

/-- With more fuel a call reports what it means. -/
theorem call_succ (hp : w.program.Built) (node : Option Expr) (name : String) (values : List Float)
    (s : State) :
    (Evaluator.call (w.evaluator printsResults) w.program (fuel + 1) node name values s).Reports s
      (Calls w s.activeCalls node name values) := by
  cases hdeclared : w.program.declaration? name with
  | none =>
    rw [call_undeclared hdeclared]
    exact .stop (.unknown hdeclared)
  | some d =>
    by_cases harity : d.prototype.arity = values.length
    · cases d with
      | definition d rank =>
        rw [call_definition hp hdeclared harity]
        split
        · next hdepth => exact .stop (.tooDeep hdeclared harity hdepth)
        · next hdepth =>
          apply Outcome.Reports.asCall
          apply Outcome.Reports.inScopes
          apply (within.expression d.body _).mono
          intro r out hbody
          rw [State.env_scope] at hbody
          exact .body hdeclared harity (Int.not_le.mp hdepth) hbody
      | foreign q =>
        rw [call_foreign hp hdeclared harity]
        cases hadded : w.added.get? name with
        | some routine =>
          exact (within.perform (routine values) s).mono fun r out => .added hdeclared harity hadded
        | none =>
          cases hfind : Standard.find? name with
          | none => exact .stop (.unbound hdeclared harity hadded hfind)
          | some standard =>
            simp only
            split
            · next hown => exact .stop (.refused hdeclared harity hadded hfind hown)
            · next hown =>
              have hown := Decidable.not_not.mp hown
              exact .inr ⟨_, _, standard.invoke_eq_report name values s,
                .standard hdeclared harity hadded hfind hown⟩
    · rw [call_mismatch hdeclared harity]
      exact .stop (.mismatch hdeclared harity)

/-- With more fuel an added routine reports what it means. -/
theorem perform_succ (routine : Routine) (s : State) :
    (Evaluator.perform (w.evaluator printsResults) w.program (fuel + 1) routine s).Reports s
      (Performs w s.activeCalls routine) := by
  cases routine with
  | done answer =>
    cases answer with
    | ok x => exact .pure .done
    | error f => exact .stop .done
  | call name arguments next =>
    apply Outcome.Reports.attempt (within.call none name arguments s)
    intro r out hcalled
    exact (within.perform (next r) _).mono fun r' more => .call hcalled
  | evaluate e bindings next =>
    apply Outcome.Reports.attempt (Outcome.Reports.inScopes (within.expression e _))
    intro r out hevaluated
    rw [State.env_scope] at hevaluated
    exact (within.perform (next r) _).mono fun r' more => .evaluate hevaluated

end

end RefinesWithin

/-- Evaluation reports what the semantics gives, whatever the fuel. -/
theorem refines_within {w : Setting} (hp : w.program.Built) (printsResults : Bool) (fuel : Nat) :
    RefinesWithin w printsResults fuel := by
  induction fuel with
  | zero => exact .zero w printsResults
  | succ fuel within =>
    constructor
    · exact within.expression_succ
    · exact within.expressions_succ
    · exact within.turn_succ
    · exact within.call_succ hp
    · exact within.perform_succ

end Evaluator

end Formulary
