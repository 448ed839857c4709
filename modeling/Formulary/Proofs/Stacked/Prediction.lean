import Formulary.Proofs.Evaluation.Prediction
import Formulary.Proofs.Stacked.Meaning

/-!
# The resolver foretells what fails to resolve on a stack

A run on a stack is cut, if at all, out of a run without one, so a name that it fails to resolve is an
error of the resolver. The stack adds two ways to end: it may run out, which is reported as too many
calls, and the headroom for the limit may be refused. That standard functions get their own number of
arguments is said by putting others in their place: those that differ only where they get another
number of arguments make no difference.
-/

namespace Formulary.Evaluator

open Evaluation

/-! ### The arguments of standard functions -/

/-- A call that leads to a standard function has as many values as that takes. -/
theorem arity_of_target_standard {ev : Evaluator} {p : Program} {node : Option Expr} {name : String}
    {values : List Float} {standard : Standard}
    (h : ev.target p node name values = .standard standard) : values.length = standard.arity := by
  unfold target at h
  cases hprototype : p.prototype? name with
  | none =>
    rw [hprototype] at h
    cases h
  | some prototype =>
    rw [hprototype] at h
    simp only at h
    split at h
    · next harity =>
      cases hdefinition : ev.definition? p name with
      | some d =>
        rw [hdefinition] at h
        cases h
      | none =>
        rw [hdefinition] at h
        simp only [outside] at h
        split at h
        · cases h
        · split at h
          · split at h
            · next hown =>
              cases h
              rw [hown, harity]
            · cases h
          · cases h
    · cases h

/-- Two evaluators do the same on a stack with some fuel. -/
structure SameOn (frames : Frames) (ev ev' : Evaluator) (p : Program) (fuel : Nat) : Prop where
  expression : ∀ e, evalOn frames ev' p fuel e = evalOn frames ev p fuel e
  expressions : ∀ es, evalAllOn frames ev' p fuel es = evalAllOn frames ev p fuel es
  turn : ∀ name stop step body,
    turnOn frames ev' p fuel name stop step body = turnOn frames ev p fuel name stop step body
  call : ∀ node name values,
    callOn frames ev' p fuel node name values = callOn frames ev p fuel node name values
  perform : ∀ routine, performOn frames ev' p fuel routine = performOn frames ev p fuel routine

section

variable {frames : Frames} {ev : Evaluator} {p : Program}
  {invoke : String → Standard → List Float → Action Float}

/-- What standard functions do with another number of arguments than their own makes no difference
to a call. -/
theorem SameOn.call_succ {fuel : Nat} (same : SameOn frames ev { ev with invoke } p fuel)
    (h : ∀ name standard values, values.length = standard.arity →
      invoke name standard values = ev.invoke name standard values)
    (node : Option Expr) (name : String) (values : List Float) :
    callOn frames { ev with invoke } p (fuel + 1) node name values =
      callOn frames ev p (fuel + 1) node name values := by
  have htarget : target { ev with invoke } p node name values = ev.target p node name values := rfl
  rw [callOn, callOn, htarget]
  cases hstandard : ev.target p node name values with
  | fault f => rfl
  | body d scope =>
    simp only [same.expression]
    rfl
  | routine routine => simp only [same.perform]
  | standard standard => simp only [h name standard values (arity_of_target_standard hstandard)]

/-- Evaluation does not depend on what standard functions do with another number of arguments than
their own. -/
theorem same_on (frames : Frames) (p : Program)
    (h : ∀ name standard values, values.length = standard.arity →
      invoke name standard values = ev.invoke name standard values) (fuel : Nat) :
    SameOn frames ev { ev with invoke } p fuel := by
  induction fuel with
  | zero =>
    constructor
    · intro e
      cases e <;> rfl
    · intro es
      cases es <;> rfl
    · intros
      rfl
    · intros
      rfl
    · intro routine
      cases routine <;> rfl
  | succ fuel same =>
    constructor
    · intro e
      cases e <;> simp only [evalOn, same.expression, same.expressions, same.turn, same.call]
    · intro es
      cases es <;> simp only [evalAllOn, same.expression, same.expressions]
    · intro name stop step body
      cases step <;> simp only [turnOn, same.expression, same.turn]
    · exact same.call_succ h
    · intro routine
      cases routine with
      | done answer => cases answer <;> rfl
      | call name arguments next => simp only [performOn, same.call, same.perform, useOn]
      | evaluate e bindings next => simp only [performOn, same.expression, same.perform, useOn]

/-- Nor does a run. -/
theorem runOn_invoke (h : ∀ name standard values, values.length = standard.arity →
    invoke name standard values = ev.invoke name standard values) (fuel : Nat) :
    runOn frames { ev with invoke } p fuel = runOn frames ev p fuel := by
  have hall (es : List Expr) : evaluateAllOn frames { ev with invoke } p fuel es =
      evaluateAllOn frames ev p fuel es := by
    induction es with
    | nil => rfl
    | cons e rest ih =>
      have heval := (same_on frames p h fuel).expression
      simp only [evaluateAllOn, enclosed, heval, ih]
  rw [runOn, runOn, hall]
  rfl

end

/-- The result of a run: it was refused its headroom, or made too many calls, or fuel was wanting, or
it ended as a run without a stack and wrote the same. -/
theorem runOn_result (frames : Frames) {ev : Evaluator} (hinvoke : ev.invoke = Standard.invoke)
    (p : Program) {m : Machine} (hm : m.guards = 0) (fuel : Nat) (stack : Stack) :
    (∃ why, (runOn frames ev p fuel stack m).1 = .error (.stack why) ∧ ¬ ev.Grants frames stack) ∨
    (∃ name n, (runOn frames ev p fuel stack m).1 =
      .error (.fault (.failed (.callDepthExceeded name n)))) ∨
    ((runOn frames ev p fuel stack m).1 = .error .outOfFuel ∧
      ev.run p fuel m.toState = .outOfFuel) ∨
    ∃ r after, ev.run p fuel m.toState = Outcome.ended r after ∧
      (runOn frames ev p fuel stack m).1 = r.mapError .fault ∧
      (runOn frames ev p fuel stack m).2.output = after.output :=
  useOn_result (within_follows frames hinvoke p .run)
    (fun fuel => Use.run.within_apart hinvoke fuel) hm fuel stack

/-- Under a positive limit the stack stops a run because it runs out or because the headroom is out of
range. -/
theorem cause_of_runOn {frames : Frames} {ev : Evaluator} (hinvoke : ev.invoke = Standard.invoke)
    (hpositive : 0 < ev.callLimit * Stacked.framesPerCall) {p : Program} {m : Machine}
    (hm : m.guards = 0) {fuel : Nat} {stack : Stack} {e : Stack.Error}
    (h : (runOn frames ev p fuel stack m).1 = .error (.stack e)) :
    e = .exhausted ∨
      e = .outOfRange ∧ 2147483647 < stack.limit + ev.callLimit * Stacked.framesPerCall := by
  obtain ⟨_, _, ungranted⟩ | ⟨_, _, hdeep⟩ | ⟨hfuel, _⟩ | ⟨r, _, _, hr, _⟩ :=
    runOn_result frames hinvoke p hm fuel stack
  · cases hdeeper : stack.holding (frames .use) with
    | none =>
      rw [runOn, useOn_of_holding hdeeper] at h
      cases h
      exact .inl rfl
    | some deeper =>
      obtain ⟨_, hlimit, _⟩ := Stack.holding_eq_some_iff.mp hdeeper
      cases hhigher : deeper.raised (ev.callLimit * Stacked.framesPerCall) with
      | ok higher => exact absurd ⟨deeper, higher, hdeeper, hhigher⟩ ungranted
      | error why =>
        obtain ⟨rfl, hrange⟩ := Stack.outOfRange_of_raised hpositive hhigher
        rw [runOn, useOn_of_raised hdeeper hhigher _ hm] at h
        cases h
        exact .inr ⟨rfl, by rwa [← hlimit]⟩
  · cases h.symm.trans hdeep
  · cases h.symm.trans hfuel
  · rw [hr] at h
    cases r <;> cases h

/-- How a run with the standard functions ends: refused its headroom, for want of fuel, with an error of
evaluation, with one value for each formula, or with a name that the resolver reports. -/
theorem runOn_meets {p : Program} (hp : p.Built) (callLimit : Int) (printsResults : Bool)
    (frames : Frames) (fuel : Nat) (stack : Stack) {m : Machine} (hm : m.guards = 0) :
    let ev := ofProgram p {} callLimit printsResults
    (∃ why, (runOn frames ev p fuel stack m).1 = .error (.stack why) ∧ ¬ ev.Grants frames stack) ∨
    (runOn frames ev p fuel stack m).1 = .error .outOfFuel ∨
    (∃ e, (runOn frames ev p fuel stack m).1 = .error (.fault (.failed e))) ∨
    (∃ xs, (runOn frames ev p fuel stack m).1 = .ok xs ∧ xs.length = p.expressions.length) ∨
    ∃ e, (runOn frames ev p fuel stack m).1 = .error (.fault (.unresolved e)) ∧
      ∃ e' ∈ p.resolve.errors, e'.Foretells e := by
  intro ev
  have hmeets : (ev.run p fuel m.toState).Meets p.resolve.errors
      (fun xs => xs.length = p.expressions.length) m.toState.names := by
    rw [Program.errors_resolve]
    exact foreseen_evaluateAll ⟨hp, rfl, rfl, rfl⟩ fuel p.expressions (fun _ he => he) m.toState
      fun name hname => by contradiction
  obtain hrefused | ⟨name, n, hdeep⟩ | ⟨hfuel, _⟩ | ⟨r, after, hended, hresult, _⟩ :=
    runOn_result frames (show ev.invoke = Standard.invoke from rfl) p hm fuel stack
  · exact .inl hrefused
  · exact .inr (.inr (.inl ⟨_, hdeep⟩))
  · exact .inr (.inl hfuel)
  · rw [hended] at hmeets
    cases r with
    | ok xs => exact .inr (.inr (.inr (.inl ⟨xs, hresult, hmeets.1⟩)))
    | error f =>
      cases f with
      | unresolved e => exact .inr (.inr (.inr (.inr ⟨e, hresult, hmeets⟩)))
      | failed e => exact .inr (.inr (.inl ⟨e, hresult⟩))

/-- A name that a run with the standard functions fails to resolve is an error of the resolver: of
the same class, for the same node, with the same name, the same counts and the same location. If the
resolver finds no error, then a run that ends gives one value for each top-level expression, or ends
with an error of evaluation: an outside function without an implementation, too many calls, or an
argument that is refused; unless it did not begin, because the system refused the headroom for the
limit. And every standard function gets its own number of arguments: the run is the same with others in
their place that do something else with any other number. -/
theorem resolver_foretells_run_on_stack {p : Program} (hp : p.Built) (callLimit : Int)
    (printsResults : Bool) (frames : Frames) (fuel : Nat) (stack : Stack) {m : Machine}
    (hm : m.guards = 0) :
    let ev := ofProgram p {} callLimit printsResults
    (∀ e, (runOn frames ev p fuel stack m).1 = .error (.fault (.unresolved e)) →
      ∃ e' ∈ p.resolve.errors, e'.Foretells e) ∧
    (p.resolve.errors = [] →
      (match (runOn frames ev p fuel stack m).1 with
        | .ok xs => xs.length = p.expressions.length
        | .error (.fault f) => ∃ e : EvaluationError, f = .failed e
        | .error (.stack _) => ¬ ev.Grants frames stack
        | .error .outOfFuel => True) ∧
      ∀ invoke : String → Standard → List Float → Action Float,
        (∀ name standard values, values.length = standard.arity →
          invoke name standard values = standard.invoke name values) →
        runOn frames { ev with invoke } p fuel stack m = runOn frames ev p fuel stack m) := by
  intro ev
  have hends := runOn_meets hp callLimit printsResults frames fuel stack hm
  constructor
  · intro e h
    obtain ⟨_, hr, _⟩ | hr | ⟨_, hr⟩ | ⟨_, hr, _⟩ | ⟨_, hr, hforetold⟩ := hends
    · cases h.symm.trans hr
    · cases h.symm.trans hr
    · cases h.symm.trans hr
    · cases h.symm.trans hr
    · cases h.symm.trans hr
      exact hforetold
  · intro hnone
    refine ⟨?_, fun invoke hinvoke => by rw [runOn_invoke hinvoke]⟩
    obtain ⟨_, hr, ungranted⟩ | hr | ⟨e, hr⟩ | ⟨_, hr, hlength⟩ | ⟨_, _, e', he', _⟩ := hends
    · rw [hr]
      exact ungranted
    · rw [hr]
      trivial
    · rw [hr]
      exact ⟨e, rfl⟩
    · rw [hr]
      exact hlength
    · rw [hnone] at he'
      contradiction

/-- Is a name unresolved? -/
def unresolved? {α : Type} : Except Halt α → Bool
  | .error (.fault (.unresolved _)) => true
  | _ => false

theorem exists_of_unresolved? {α : Type} {result : Except Halt α} (h : unresolved? result = true) :
    ∃ e, result = .error (.fault (.unresolved e)) := by
  unfold unresolved? at h
  split at h
  · exact ⟨_, rfl⟩
  · cases h

/-- A run of the program `x;` stops at the unbound variable, which the resolver reports. -/
theorem unbound_variable_foretold :
    let p := Program.ofStatements [.expression (.var "x" none)]
    ∃ e, (runOn .usual (ofProgram p) p 2 .usual {}).1 = .error (.fault (.unresolved e)) ∧
      ∃ e' ∈ p.resolve.errors, e'.Foretells e := by
  intro p
  have hp : p.Built := Program.built_ofStatements _
  have hforetold := (resolver_foretells_run_on_stack hp defaultCallLimit false .usual 2 .usual
    (m := {}) rfl).1
  have hunresolved : unresolved? (runOn .usual (ofProgram p) p 2 .usual {}).1 = true := by
    decide +kernel
  obtain ⟨e, he⟩ := exists_of_unresolved? hunresolved
  exact ⟨e, he, hforetold e he⟩

/-- A program without a mistake has no value under a limit of a thousand million, and no error of
evaluation either. -/
theorem great_limit_is_not_foretold :
    let p := Program.ofStatements [.expression (.number 1.0 none)]
    p.resolve.errors = [] ∧
      (runOn .usual (ofProgram p {} 1000000000) p 3 .usual {}).1 = .error (.stack .outOfRange) :=
  ⟨rfl, rfl⟩

end Formulary.Evaluator
