import Formulary.Proofs.Evaluation.Refinement

/-!
# Evaluation ends where there is a meaning

A derivation of the semantics without scopes is an evaluation that ends: from some fuel on, the
evaluator reports its result and its text (`Settles`). The proof is by recursion on the derivation,
with one rule for each way in which actions are put together. With the other direction this makes
the evaluator and the semantics two descriptions of one function.
-/

namespace Formulary

open Evaluation

namespace Evaluation

variable {α β : Type}

/-- From some fuel on, an action reports a result and a text. -/
def Settles (a : Nat → Action α) (s : State) (r : Except Fault α) (out : String) : Prop :=
  ∃ least, ∀ fuel, least ≤ fuel → a fuel s = Outcome.report s out r

namespace Settles

variable {a b : Nat → Action α} {f : Nat → α → Action β} {s : State} {r : Except Fault α}
  {r' : Except Fault β} {out more : String}

/-- An action that needs no fuel settles. -/
theorem of_eq (h : ∀ fuel, a fuel s = Outcome.report s out r) : Settles a s r out :=
  ⟨0, fun fuel _ => h fuel⟩

/-- An action settles with one result and one text. -/
theorem unique {r' : Except Fault α} {out' : String} (h : Settles a s r out)
    (h' : Settles a s r' out') : r = r' ∧ out = out' := by
  obtain ⟨least, hleast⟩ := h
  obtain ⟨least', hleast'⟩ := h'
  have hreport := hleast _ (Nat.le_max_left least least')
  rw [hleast' _ (Nat.le_max_right least least')] at hreport
  obtain ⟨rfl, rfl⟩ := Outcome.report_inj hreport
  exact ⟨rfl, rfl⟩

/-- Some fuel may be used up first. -/
theorem succ (h : ∀ fuel, b (fuel + 1) s = a fuel s) (ha : Settles a s r out) :
    Settles b s r out := by
  obtain ⟨least, ha⟩ := ha
  refine ⟨least + 1, fun fuel hfuel => ?_⟩
  cases fuel with
  | zero => exact absurd hfuel (Nat.not_succ_le_zero least)
  | succ fuel => rw [h, ha fuel (Nat.le_of_succ_le_succ hfuel)]

/-- What is the same with any fuel at all settles in the same way. -/
theorem congr (h : ∀ fuel, b (fuel + 1) s = a (fuel + 1) s) (ha : Settles a s r out) :
    Settles b s r out := by
  obtain ⟨least, ha⟩ := ha
  refine succ (a := fun fuel => a (fuel + 1)) h ⟨least, fun fuel hfuel => ?_⟩
  exact ha _ (Nat.le_succ_of_le hfuel)

/-- After a value the second part of a sequence settles the whole. -/
theorem bind {x : α} (ha : Settles a s (.ok x) out)
    (hf : Settles (fun fuel => f fuel x) (s.wrote out) r' more) :
    Settles (fun fuel => a fuel >>= f fuel) s r' (out ++ more) := by
  obtain ⟨least, ha⟩ := ha
  obtain ⟨least', hf⟩ := hf
  refine ⟨max least least', fun fuel hfuel => ?_⟩
  change Action.bind (a fuel) (f fuel) s = _
  rw [Action.bind, ha fuel (Nat.le_trans (Nat.le_max_left ..) hfuel)]
  rw [← Outcome.report_wrote]
  exact hf fuel (Nat.le_trans (Nat.le_max_right ..) hfuel)

/-- A fault of the first part of a sequence settles the whole. -/
theorem bind_fault {e : Fault} (ha : Settles a s (.error e) out) :
    Settles (fun fuel => a fuel >>= f fuel) s (.error e) out := by
  obtain ⟨least, ha⟩ := ha
  refine ⟨least, fun fuel hfuel => ?_⟩
  change Action.bind (a fuel) (f fuel) s = _
  rw [Action.bind, ha fuel hfuel]
  rfl

/-- What is made of the value of an action settles as the action does. -/
theorem map {x : α} (ha : Settles a s (.ok x) out) (g : α → β) :
    Settles (fun fuel => a fuel >>= fun x => pure (g x)) s (.ok (g x)) out := by
  rw [← String.append_empty (s := out)]
  exact ha.bind (of_eq fun _ => Outcome.pure_eq_report _ _)

/-- What goes on after a value as after a fault settles behind the first part. -/
theorem attempt {next : Nat → Except Fault α → Action β} (ha : Settles a s r out)
    (hnext : Settles (fun fuel => next fuel r) (s.wrote out) r' more) :
    Settles (fun fuel => Action.attempt (a fuel) (next fuel)) s r' (out ++ more) := by
  obtain ⟨least, ha⟩ := ha
  obtain ⟨least', hnext⟩ := hnext
  refine ⟨max least least', fun fuel hfuel => ?_⟩
  have hnext := hnext fuel (Nat.le_trans (Nat.le_max_right ..) hfuel)
  simp only [Action.attempt, ha fuel (Nat.le_trans (Nat.le_max_left ..) hfuel)]
  rw [← Outcome.report_wrote]
  cases r <;> exact hnext

/-- In scopes of its own an action settles as it does there. -/
theorem inScopes {scopes : List Frame} (ha : Settles a { s with scopes } r out) :
    Settles (fun fuel => Action.inScopes scopes (a fuel)) s r out := by
  obtain ⟨least, ha⟩ := ha
  refine ⟨least, fun fuel hfuel => ?_⟩
  simp only [Action.inScopes, ha fuel hfuel]
  apply Outcome.mapState_report
  intro out
  rfl

/-- As a call under way an action settles as it does there. -/
theorem asCall (ha : Settles a { s with activeCalls := s.activeCalls + 1 } r out) :
    Settles (fun fuel => Action.asCall (a fuel)) s r out := by
  obtain ⟨least, ha⟩ := ha
  refine ⟨least, fun fuel hfuel => ?_⟩
  simp only [Action.asCall, ha fuel hfuel]
  apply Outcome.mapState_report
  intro out
  rfl

end Settles

/-- An action computes the results and the texts of a relation: an outcome with any fuel reports one
of them, and each of them is reported from some fuel on. -/
structure Computes (a : Nat → Action α) (s : State) (P : Except Fault α → String → Prop) : Prop where
  sound : ∀ fuel, (a fuel s).Reports s P
  complete : ∀ r out, P r out → Settles a s r out

namespace Computes

variable {a : Nat → Action α} {s : State} {P : Except Fault α → String → Prop}

/-- What is reported with some fuel is what the relation gives. -/
theorem report_iff (h : Computes a s P) (r : Except Fault α) (out : String) :
    (∃ fuel, a fuel s = Outcome.report s out r) ↔ P r out := by
  constructor
  · rintro ⟨fuel, hreport⟩
    rcases h.sound fuel with hout | ⟨r', out', hreport', hP⟩
    · rw [hreport] at hout
      cases r <;> contradiction
    · rw [hreport] at hreport'
      obtain ⟨rfl, rfl⟩ := Outcome.report_inj hreport'
      exact hP
  · intro hP
    obtain ⟨least, hleast⟩ := h.complete r out hP
    exact ⟨least, hleast least (Nat.le_refl least)⟩

/-- The relation gives one result and one text. -/
theorem unique (h : Computes a s P) {r r' : Except Fault α} {out out' : String} (hP : P r out)
    (hP' : P r' out') : r = r' ∧ out = out' :=
  (h.complete r out hP).unique (h.complete r' out' hP')

end Computes

end Evaluation

namespace Evaluator

section

variable {ev : Evaluator} {p : Program} {name : String} {stop : Expr} {step : Option Expr}
  {body : Expr} {x : Float} {s : State}

/-- A variable that is bound is evaluated to its value. -/
theorem eval_bound {span : Option Span} (h : s.env name = some x) (fuel : Nat) :
    eval ev p (fuel + 1) (.var name span) s = (pure x : Action Float) s := by
  change Action.lookup? name s.scopes = some x at h
  rw [eval]
  change Action.bind Action.state _ s = _
  simp only [Action.bind, Action.state, h]

/-- A variable that is not bound stops the evaluation. -/
theorem eval_unbound {span : Option Span} (h : s.env name = none) (fuel : Nat) :
    eval ev p (fuel + 1) (.var name span) s = (Action.stop (.unresolved
      { cause := .unknownVariable name, location := span.map Span.first,
        node := some (.var name span) }) : Action Float) s := by
  change Action.lookup? name s.scopes = none at h
  rw [eval]
  change Action.bind Action.state _ s = _
  simp only [Action.bind, Action.state, h]

/-- A variable is reported, bound or not. -/
theorem eval_var_eq_report {span : Option Span} (fuel : Nat) (s : State) :
    ∃ out r, eval ev p (fuel + 1) (.var name span) s = Outcome.report s out r := by
  cases h : s.env name with
  | some x => exact ⟨_, _, (eval_bound h fuel).trans (Outcome.pure_eq_report x s)⟩
  | none => exact ⟨_, _, (eval_unbound h fuel).trans (Outcome.stop_eq_report _ s)⟩

/-- A conditional evaluates the branch that its condition chooses. -/
theorem eval_branch {condition consequent alternative : Expr} {span : Option Span} (fuel : Nat) :
    eval ev p (fuel + 1) (.cond condition consequent alternative span) =
      eval ev p fuel condition >>= fun x =>
        eval ev p fuel (if isTrue x then consequent else alternative) := by
  rw [eval]
  congr 1
  funext x
  split <;> rfl

end

/-- Expressions settle one behind the other, up to the first fault. -/
inductive SettlesAll (ev : Evaluator) (p : Program) :
    State → List Expr → Except Fault (List Float) → String → Prop where
  | nil {s} : SettlesAll ev p s [] (.ok []) ""
  | cons {s e rest x xs out more} (first : Settles (fun fuel => eval ev p fuel e) s (.ok x) out)
    (others : SettlesAll ev p (s.wrote out) rest (.ok xs) more) :
    SettlesAll ev p s (e :: rest) (.ok (x :: xs)) (out ++ more)
  | fault {s e rest f out} (first : Settles (fun fuel => eval ev p fuel e) s (.error f) out) :
    SettlesAll ev p s (e :: rest) (.error f) out
  | later {s e rest x f out more} (first : Settles (fun fuel => eval ev p fuel e) s (.ok x) out)
    (others : SettlesAll ev p (s.wrote out) rest (.error f) more) :
    SettlesAll ev p s (e :: rest) (.error f) (out ++ more)

namespace SettlesAll

variable {ev : Evaluator} {p : Program} {s : State} {f : Fault} {out : String}

/-- The values of expressions settle as the expressions do. -/
theorem evalAll {es : List Expr} {r : Except Fault (List Float)}
    (h : SettlesAll ev p s es r out) : Settles (fun fuel => evalAll ev p fuel es) s r out := by
  induction h with
  | nil => exact .succ (fun _ => rfl) (.of_eq fun _ => Outcome.pure_eq_report _ _)
  | cons first others ih => exact .succ (fun _ => rfl) (first.bind (ih.map _))
  | fault first => exact .succ (fun _ => rfl) first.bind_fault
  | later first others ih => exact .succ (fun _ => rfl) (first.bind ih.bind_fault)

section

variable {op : Operator} {left right : Expr} {span : Option Span}

/-- An operation settles as its operands do. -/
theorem binary {x y : Float} (h : SettlesAll ev p s [left, right] (.ok [x, y]) out) :
    Settles (fun fuel => eval ev p fuel (.binary op left right span)) s (.ok (op.apply x y))
      out := by
  apply Settles.succ (fun _ => rfl)
  cases h with
  | cons first others =>
    cases others with
    | cons second others =>
      cases others
      rw [String.append_empty]
      exact first.bind (second.map _)

/-- So does one with an operand that fails. -/
theorem binary_fault (h : SettlesAll ev p s [left, right] (.error f) out) :
    Settles (fun fuel => eval ev p fuel (.binary op left right span)) s (.error f) out := by
  apply Settles.succ (fun _ => rfl)
  cases h with
  | fault first => exact first.bind_fault
  | later first others =>
    cases others with
    | fault second => exact first.bind second.bind_fault
    | later _ others => nomatch others

end

section

variable {name : String} {stop : Expr} {step : Option Expr} {body : Expr} {x : Float}

/-- A step settles as its expression does, as one where there is none. -/
theorem stepSize {r : Except Fault Float}
    (h : Settles (fun fuel => eval ev p fuel (step.getD (.number 1.0 none))) s r out) :
    Settles (fun fuel => stepSize ev p fuel step) s r out := by
  apply h.congr
  intro fuel
  cases step <;> rfl

/-- The parts of a turn settle as they do in a list. -/
theorem turnParts {value size goesOn : Float}
    (h : SettlesAll ev p s [body, step.getD (.number 1.0 none), stop]
      (.ok [value, size, goesOn]) out) :
    Settles (fun fuel => turnParts ev p fuel stop step body) s (.ok (value, size, goesOn)) out := by
  cases h with
  | cons first others =>
    cases others with
    | cons second others =>
      cases others with
      | cons third others =>
        cases others
        rw [String.append_empty]
        exact first.bind ((stepSize second).bind (third.map _))

/-- So does a part that fails. -/
theorem turnParts_fault
    (h : SettlesAll ev p s [body, step.getD (.number 1.0 none), stop] (.error f) out) :
    Settles (fun fuel => Evaluator.turnParts ev p fuel stop step body) s (.error f) out := by
  cases h with
  | fault first => exact first.bind_fault
  | later first others =>
    cases others with
    | fault second => exact first.bind (stepSize second).bind_fault
    | later second others =>
      cases others with
      | fault third => exact first.bind ((stepSize second).bind third.bind_fault)
      | later _ others => nomatch others

/-- A loop settles with the fault of a turn. -/
theorem turn_fault
    (h : SettlesAll ev p (s.inFrame (.ofList [(name, x)]))
      [body, step.getD (.number 1.0 none), stop] (.error f) out) :
    Settles (fun fuel => Action.inFrame (.ofList [(name, x)])
      (turn ev p fuel name stop step body)) s (.error f) out := by
  obtain ⟨least, h⟩ := h.turnParts_fault
  refine .succ (fun _ => rfl) ⟨least, fun fuel hfuel => ?_⟩
  exact inFrame_turn_fault (h fuel hfuel)

/-- A loop settles after the turn at whose end it does not go on. -/
theorem turn_last {value size goesOn : Float}
    (h : SettlesAll ev p (s.inFrame (.ofList [(name, x)]))
      [body, step.getD (.number 1.0 none), stop] (.ok [value, size, goesOn]) out)
    (ends : isTrue goesOn = false) :
    Settles (fun fuel => Action.inFrame (.ofList [(name, x)])
      (turn ev p fuel name stop step body)) s (.ok 0.0) out := by
  obtain ⟨least, h⟩ := h.turnParts
  refine .succ (fun _ => rfl) ⟨least, fun fuel hfuel => ?_⟩
  change Action.inFrame _ (turn ev p (fuel + 1) name stop step body) s = _
  rw [inFrame_turn_value (h fuel hfuel), ends]
  rfl

/-- A loop settles as it does from the next value of its variable on. -/
theorem turn_next {value size goesOn : Float} {r : Except Fault Float} {more : String}
    (h : SettlesAll ev p (s.inFrame (.ofList [(name, x)]))
      [body, step.getD (.number 1.0 none), stop] (.ok [value, size, goesOn]) out)
    (goes : isTrue goesOn = true)
    (others : Settles (fun fuel => Action.inFrame (.ofList [(name, x + size)])
      (turn ev p fuel name stop step body)) (s.wrote out) r more) :
    Settles (fun fuel => Action.inFrame (.ofList [(name, x)])
      (turn ev p fuel name stop step body)) s r (out ++ more) := by
  obtain ⟨least, h⟩ := h.turnParts
  obtain ⟨least', others⟩ := others
  refine .succ (fun _ => rfl) ⟨max least least', fun fuel hfuel => ?_⟩
  change Action.inFrame _ (turn ev p (fuel + 1) name stop step body) s = _
  rw [inFrame_turn_value (h fuel (Nat.le_trans (Nat.le_max_left ..) hfuel)), if_pos goes,
    ← Outcome.report_wrote]
  exact others fuel (Nat.le_trans (Nat.le_max_right ..) hfuel)

end

end SettlesAll

end Evaluator

namespace Evaluation

section

variable {w : Setting} {printsResults : Bool}

mutual

/-- An expression that means something is evaluated to it. -/
theorem Evaluates.settles (hp : w.program.Built) {n : Nat} {env : Env} {e : Expr}
    {r : Except Fault Float} {out : String} (h : Evaluates w n env e r out) {s : State}
    (hs : s.Sees n env) :
    Settles (fun fuel => (w.evaluator printsResults).eval w.program fuel e) s r out := by
  match h with
  | .number => exact .succ (fun _ => rfl) (.of_eq fun _ => Outcome.pure_eq_report _ s)
  | .var bound =>
    rw [← hs.env_eq] at bound
    exact .succ (Evaluator.eval_bound bound) (.of_eq fun _ => Outcome.pure_eq_report _ s)
  | .unbound free =>
    rw [← hs.env_eq] at free
    exact .succ (Evaluator.eval_unbound free) (.of_eq fun _ => Outcome.stop_eq_report _ s)
  | .binary operands => exact (operands.settles hp hs).binary
  | .binaryFault operands => exact (operands.settles hp hs).binary_fault
  | .call given called =>
    exact .succ (fun _ => rfl) ((given.settles hp hs).evalAll.bind (called.settles hp (hs.wrote _)))
  | .callFault given => exact .succ (fun _ => rfl) (given.settles hp hs).evalAll.bind_fault
  | .condTrue tested holds chosen =>
    rw [← isTrue_iff] at holds
    apply Settles.succ (fun _ => congrFun (Evaluator.eval_branch _) s)
    apply Settles.bind (tested.settles hp hs)
    simp only [if_pos holds]
    exact chosen.settles hp (hs.wrote _)
  | .condFalse tested fails chosen =>
    rw [← isTrue_eq_false_iff] at fails
    apply Settles.succ (fun _ => congrFun (Evaluator.eval_branch _) s)
    apply Settles.bind (tested.settles hp hs)
    simp only [fails, Bool.false_eq_true, if_false]
    exact chosen.settles hp (hs.wrote _)
  | .condFault tested => exact .succ (fun _ => rfl) (tested.settles hp hs).bind_fault
  | .loop started turned =>
    exact .succ (fun _ => rfl) ((started.settles hp hs).bind (turned.settles hp (hs.wrote _)))
  | .loopFault started => exact .succ (fun _ => rfl) (started.settles hp hs).bind_fault

/-- Expressions that mean something are evaluated to it, one behind the other. -/
theorem EvaluatesAll.settles (hp : w.program.Built) {n : Nat} {env : Env} {es : List Expr}
    {r : Except Fault (List Float)} {out : String} (h : EvaluatesAll w n env es r out) {s : State}
    (hs : s.Sees n env) :
    Evaluator.SettlesAll (w.evaluator printsResults) w.program s es r out := by
  match h with
  | .nil => exact .nil
  | .cons first others => exact .cons (first.settles hp hs) (others.settles hp (hs.wrote _))
  | .fault first => exact .fault (first.settles hp hs)
  | .later first others => exact .later (first.settles hp hs) (others.settles hp (hs.wrote _))

/-- Turns of a loop that mean something come to it. -/
theorem Turns.settles (hp : w.program.Built) {n : Nat} {env : Env} {name : String} {stop : Expr}
    {step : Option Expr} {body : Expr} {x : Float} {r : Except Fault Float} {out : String}
    (h : Turns w n env name stop step body x r out) {s : State} (hs : s.Sees n env) :
    Settles (fun fuel => Action.inFrame (.ofList [(name, x)])
      ((w.evaluator printsResults).turn w.program fuel name stop step body)) s r out := by
  match h with
  | .fault turn => exact (turn.settles hp (hs.inFrame name x)).turn_fault
  | .last turn ends =>
    exact (turn.settles hp (hs.inFrame name x)).turn_last ((isTrue_eq_false_iff _).mpr ends)
  | .next turn goes others =>
    exact (turn.settles hp (hs.inFrame name x)).turn_next ((isTrue_iff _).mpr goes)
      (others.settles hp (hs.wrote _))

/-- A call that means something comes to it. -/
theorem Calls.settles (hp : w.program.Built) {n : Nat} {node : Option Expr} {name : String}
    {values : List Float} {r : Except Fault Float} {out : String}
    (h : Calls w n node name values r out) {s : State} {env : Env} (hs : s.Sees n env) :
    Settles (fun fuel => (w.evaluator printsResults).call w.program fuel node name values)
      s r out := by
  match h with
  | .unknown undeclared =>
    exact .succ (fun _ => congrFun (Evaluator.call_undeclared undeclared) s)
      (.of_eq fun _ => Outcome.stop_eq_report _ s)
  | .mismatch declared arity =>
    exact .succ (fun _ => congrFun (Evaluator.call_mismatch declared arity) s)
      (.of_eq fun _ => Outcome.stop_eq_report _ s)
  | .tooDeep declared arity depth =>
    rw [← hs.calls] at depth
    exact .succ (fun _ => (Evaluator.call_definition hp declared arity s).trans (if_pos depth))
      (.of_eq fun _ => Outcome.stop_eq_report _ s)
  | .body declared arity depth run =>
    rw [← hs.calls] at depth
    have hcall : State.activeCalls { s with activeCalls := s.activeCalls + 1 } = n + 1 := by
      rw [← hs.calls]
    exact .succ (fun _ => (Evaluator.call_definition hp declared arity s).trans
      (if_neg (Int.not_le.mpr depth))) (.asCall (.inScopes (run.settles hp (.scope hcall _))))
  | .added declared arity found run =>
    apply Settles.succ (fun _ => congrFun (Evaluator.call_foreign hp declared arity) s)
    simp only [found]
    exact run.settles hp hs
  | .standard declared arity found known own =>
    apply Settles.succ (fun _ => congrFun (Evaluator.call_foreign hp declared arity) s)
    simp only [found, known, ne_eq, own, not_true_eq_false, if_false]
    exact .of_eq fun _ => Standard.invoke_eq_report _ name values s
  | .refused declared arity found known own =>
    apply Settles.succ (fun _ => congrFun (Evaluator.call_foreign hp declared arity) s)
    simp only [found, known, ne_eq, own, not_false_eq_true, if_true]
    exact .of_eq fun _ => Outcome.stop_eq_report _ s
  | .unbound declared arity found known =>
    apply Settles.succ (fun _ => congrFun (Evaluator.call_foreign hp declared arity) s)
    simp only [found, known]
    exact .of_eq fun _ => Outcome.stop_eq_report _ s

/-- A routine that means something comes to it. -/
theorem Performs.settles (hp : w.program.Built) {n : Nat} {routine : Routine}
    {r : Except Fault Float} {out : String} (h : Performs w n routine r out) {s : State} {env : Env}
    (hs : s.Sees n env) :
    Settles (fun fuel => (w.evaluator printsResults).perform w.program fuel routine) s r out := by
  match h with
  | .done =>
    cases r with
    | ok x => exact .succ (fun _ => rfl) (.of_eq fun _ => Outcome.pure_eq_report x s)
    | error f => exact .succ (fun _ => rfl) (.of_eq fun _ => Outcome.stop_eq_report f s)
  | .call called goesOn =>
    exact .succ (fun _ => rfl) ((called.settles hp hs).attempt (goesOn.settles hp (hs.wrote _)))
  | .evaluate evaluated goesOn =>
    exact .succ (fun _ => rfl) (.attempt (.inScopes (evaluated.settles hp (.scope hs.calls _)))
      (goesOn.settles hp (hs.wrote _)))

end

end

end Evaluation

namespace Evaluator

section

variable (w : Setting) {s : State}

/-- An expression is evaluated to what it means. -/
theorem computes_eval (hp : w.program.Built) (printsResults : Bool) (e : Expr) :
    Computes (fun fuel => (w.evaluator printsResults).eval w.program fuel e) s
      (Evaluates w s.activeCalls s.env e) :=
  ⟨fun fuel => (refines_within hp printsResults fuel).expression e s,
    fun _ _ h => h.settles hp ⟨rfl, rfl⟩⟩

/-- So is one with bindings of its own. -/
theorem computes_evaluate (hp : w.program.Built) (printsResults : Bool) (e : Expr)
    (bindings : List (String × Float)) :
    Computes (fun fuel => (w.evaluator printsResults).evaluate w.program fuel e bindings) s
      (Evaluates w s.activeCalls (.ofBindings bindings) e) := by
  constructor
  · intro fuel
    apply Outcome.Reports.inScopes
    rw [← s.env_scope bindings]
    exact (refines_within hp printsResults fuel).expression e _
  · intro r out h
    exact .inScopes (h.settles hp (.scope rfl bindings))

/-- A call from outside comes to what it means. -/
theorem computes_callNamed (hp : w.program.Built) (printsResults : Bool) (name : String)
    (values : List Float) :
    Computes (fun fuel => (w.evaluator printsResults).callNamed w.program fuel name values) s
      (Calls w s.activeCalls none name values) :=
  ⟨fun fuel => (refines_within hp printsResults fuel).call none name values s,
    fun _ _ h => h.settles hp ⟨rfl, rfl⟩⟩

end

end Evaluator

end Formulary
