import Formulary.Proofs.Stacked.Apart
import Formulary.Proofs.Stacked.Cut
import Formulary.Proofs.Stacked.Fuel

/-!
# Uses of an evaluator on a stack

A use from outside asks for headroom and, with it, does what is described of actions within a use. If
the headroom is refused, or there is no room for the use itself, then it ends before it began. If it
is granted and the stack runs out all the same, then the use ends with the error for too many calls,
which names the body that began last. Otherwise it ends as the action within ends. In any case nothing
is left behind but text and records: the scopes and the calls under way are as before, and no use is
under way.
-/

namespace Formulary

open Evaluation

namespace Evaluation

variable {α β : Type}

/-- The machine as a use finds it that has asked for headroom. -/
def Machine.entered (m : Machine) : Machine := { m with guards := m.guards + 1, lastCall := none }

/-- The machine behind a use: a text was written, and what happened was noted down. -/
def Machine.used (m : Machine) (text : String) (last : Option String) (happened : List Event) :
    Machine :=
  { m with output := m.output ++ text, lastCall := last, events := happened.reverse ++ m.events }

/-- What a use reports of the result within it: where the stack has run out, too many calls. -/
def reported (name : String) (limit : Int) : Except Halt α → Except Halt α
  | .error (.stack .exhausted) => .error (.fault (.failed (.callDepthExceeded name limit)))
  | result => result

/-- What an effect within a use leaves behind the use. -/
theorem Effect.after_entered {m : Machine} {e : Effect α} (hm : m.guards = 0)
    (hscopes : e.scopes = m.scopes) :
    { e.after m.entered with guards := 0 } = m.used e.text e.last e.events := by
  obtain ⟨s, guards, lastCall, events⟩ := m
  obtain rfl : guards = 0 := hm
  simp only [Effect.after, Machine.entered, Machine.used, Option.or_none, hscopes]

/-- The name and the limit in an error for too many calls. -/
def tooMany? : Except Halt α → Option (String × Int)
  | .error (.fault (.failed (.callDepthExceeded name limit))) => some (name, limit)
  | _ => none

theorem eq_of_tooMany? {result : Except Halt α} {name : String} {limit : Int}
    (h : tooMany? result = some (name, limit)) :
    result = .error (.fault (.failed (.callDepthExceeded name limit))) := by
  unfold tooMany? at h
  split at h
  · cases h
    rfl
  · cases h

/-- A result that is none of the stack is reported as it is. -/
theorem reported_of_ne {name : String} {limit : Int} {result : Except Halt α}
    (h : result ≠ .error (.stack .exhausted)) : reported name limit result = result := by
  unfold reported
  split
  · exact absurd rfl h
  · rfl

/-- No report is that fuel is wanting. -/
theorem reported_ne_outOfFuel {name : String} {limit : Int} {result : Except Halt α}
    (h : result ≠ .error .outOfFuel) : reported name limit result ≠ .error .outOfFuel := by
  unfold reported
  split
  · exact fun h => nomatch h
  · exact h

/-- What is made of a value is made of what is reported. -/
theorem reported_map (name : String) (limit : Int) (result : Except Halt α) (g : α → β) :
    reported name limit (result.map g) = (reported name limit result).map g := by
  cases result with
  | ok x => rfl
  | error why =>
    cases why with
    | stack e => cases e <;> rfl
    | fault f => rfl
    | outOfFuel => rfl

namespace Stacked

variable (q : Stacked α) (stack : Stack)

/-- An action of whose value something is made. -/
theorem bind_pure (g : α → β) (m : Machine) :
    (q >>= fun x => pure (g x)) stack m = ((q stack m).1.map g, (q stack m).2) := by
  change Stacked.bind q _ stack m = _
  unfold Stacked.bind
  generalize q stack m = pair
  obtain ⟨result, after⟩ := pair
  cases result <;> rfl

/-- It has the effect of the action, with what is made of the value. -/
theorem Has.map {q : Stacked α} {stack : Stack} {m : Machine} {e : Effect α}
    (h : q.Has stack m e) (g : α → β) : (q >>= fun x => pure (g x)).Has stack m
      ⟨e.result.map g, e.scopes, e.last, e.text, e.events⟩ := by
  intro written lastCall log
  rw [bind_pure, h]
  rfl

/-- An evaluator that is not in use asks for headroom, and reports where the stack runs out. -/
theorem guarded_of_idle (limit : Int) {m : Machine} (hm : m.guards = 0) :
    q.guarded limit stack m =
      let used := q.raising (limit * framesPerCall) stack m.entered
      (reported used.2.culprit limit used.1, { used.2 with guards := used.2.guards - 1 }) := by
  rw [guarded, if_neg (not_not_intro hm)]
  unfold reporting
  rw [show ({ m with guards := m.guards + 1, lastCall := Option.none } : Machine) = m.entered from rfl]
  generalize q.raising (limit * framesPerCall) stack m.entered = pair
  obtain ⟨result, after⟩ := pair
  cases result with
  | ok x => rfl
  | error why =>
    cases why with
    | stack e => cases e <;> rfl
    | fault f => rfl
    | outOfFuel => rfl

/-- Whatever is made of a value can be made of it within the headroom. -/
theorem guarded_map (limit : Int) (g : α → β) :
    (q.guarded limit >>= fun x => pure (g x)) = (q >>= fun x => pure (g x)).guarded limit := by
  funext stack m
  rw [bind_pure]
  by_cases hm : m.guards = 0
  · simp only [guarded_of_idle _ _ _ hm, raising]
    cases stack.raised (limit * framesPerCall) with
    | error why => cases why <;> rfl
    | ok higher => simp only [bind_pure, reported_map]
  · rw [guarded, guarded, if_pos hm, if_pos hm, bind_pure]

/-- Or with the frames that it stands under. -/
theorem under_map (frames : Nat) (g : α → β) :
    (q.under frames >>= fun x => pure (g x)) = (q >>= fun x => pure (g x)).under frames := by
  funext stack m
  rw [bind_pure, under, under]
  cases stack.holding frames with
  | none => rfl
  | some deeper => exact (q.bind_pure deeper g m).symm

end Stacked

end Evaluation

namespace Evaluator

variable (frames : Frames) (ev : Evaluator) (p : Program)

namespace Use

/-- What a use does within its headroom. -/
def within (fuel : Nat) : Use → Stacked (List Float)
  | run => evaluateAllOn frames ev p fuel p.expressions
  | evaluate e bindings => do
    let x ← enclosed frames ev p fuel e bindings
    return [x]
  | call name values => do
    let x ← Stacked.under (frames .call) (callOn frames ev p fuel none name values)
    return [x]

/-- Carry out a use on a stack. An expression and a call have one result. -/
def performOn (fuel : Nat) : Use → Stacked (List Float)
  | run => runOn frames ev p fuel
  | evaluate e bindings => do
    let x ← evaluateOn frames ev p fuel e bindings
    return [x]
  | call name values => do
    let x ← callNamedOn frames ev p fuel name values
    return [x]

/-- A use is what it does within its headroom, used from outside. -/
theorem performOn_eq (fuel : Nat) (use : Use) :
    use.performOn frames ev p fuel = useOn frames ev (use.within frames ev p fuel) := by
  cases use with
  | run => rfl
  | evaluate e bindings =>
    rw [performOn, evaluateOn, useOn, Stacked.under_map, Stacked.guarded_map]
    rfl
  | call name values =>
    rw [performOn, callNamedOn, useOn, Stacked.under_map, Stacked.guarded_map]
    rfl

end Use

/-- The headroom for a use is granted. -/
def Grants (stack : Stack) : Prop :=
  ∃ deeper higher, stack.holding (frames .use) = some deeper ∧
    deeper.raised (ev.callLimit * Stacked.framesPerCall) = .ok higher

/-- The stack runs out in what a use does, although there was room for the use itself. -/
def Outruns {α : Type} (q : Stacked α) (stack : Stack) (m : Machine) : Prop :=
  ∃ deeper, stack.holding (frames .use) = some deeper ∧
    (q.raising (ev.callLimit * Stacked.framesPerCall) deeper m.entered).1 = .error (.stack .exhausted)

/-- The stack serves for a use: the headroom is granted and does not run out. -/
def Serves {α : Type} (q : Stacked α) (stack : Stack) (m : Machine) : Prop :=
  ev.Grants frames stack ∧ ¬ ev.Outruns frames q stack m

variable {frames ev} {α : Type}

/-- A use whose headroom is granted reports the effect of what it does. -/
theorem useOn_granted {q : Stacked α} {stack deeper higher : Stack} {m : Machine} {e : Effect α}
    (hdeeper : stack.holding (frames .use) = some deeper)
    (hhigher : deeper.raised (ev.callLimit * Stacked.framesPerCall) = .ok higher)
    (hm : m.guards = 0) (he : q.Has higher m.entered e) (hscopes : e.scopes = m.scopes) :
    useOn frames ev q stack m =
      (reported (m.used e.text e.last e.events).culprit ev.callLimit e.result,
        m.used e.text e.last e.events) := by
  have hguards : (e.after m.entered).guards = 1 := by simp [Effect.after, Machine.entered, hm]
  have hafter := Effect.after_entered hm hscopes
  have hculprit : (e.after m.entered).culprit = (m.used e.text e.last e.events).culprit := by
    rw [← hafter]
    rfl
  simp only [useOn, Stacked.under, hdeeper, q.guarded_of_idle deeper ev.callLimit hm,
    Stacked.raising, hhigher, he.eq, hguards, Nat.sub_self, hafter, hculprit]

/-- A use for which there is no room is stopped before it began. -/
theorem useOn_of_holding {stack : Stack} (h : stack.holding (frames .use) = none) (q : Stacked α)
    (m : Machine) :
    useOn frames ev q stack m = (.error (.stack .exhausted), m.used "" m.lastCall []) := by
  simp [useOn, Stacked.under, h, Machine.used]

/-- A use for which the system refuses the headroom reports that. -/
theorem useOn_of_raised {stack deeper : Stack} {why : Stack.Error}
    (hdeeper : stack.holding (frames .use) = some deeper)
    (hwhy : deeper.raised (ev.callLimit * Stacked.framesPerCall) = .error why) (q : Stacked α)
    {m : Machine} (hm : m.guards = 0) :
    useOn frames ev q stack m =
      (reported "<top level>" ev.callLimit (.error (.stack why)), m.used "" none []) := by
  have hentered : { m.entered with guards := m.entered.guards - 1 } = m.used "" none [] := by
    simp [Machine.entered, Machine.used, hm]
  simp only [useOn, Stacked.under, hdeeper, q.guarded_of_idle deeper ev.callLimit hm,
    Stacked.raising, hwhy, hentered]
  rfl

/-- A use whose headroom is not granted has not begun, and is the same whatever it would do. -/
theorem useOn_refused {stack : Stack} (h : ¬ ev.Grants frames stack) :
    ∃ why : Halt,
      ((∃ e, why = .stack e) ∨ ∃ name n, why = .fault (.failed (.callDepthExceeded name n))) ∧
      ∀ {α : Type} (q : Stacked α) {m : Machine}, m.guards = 0 → ∃ last,
        useOn frames ev q stack m = (.error why, m.used "" last []) := by
  cases hdeeper : stack.holding (frames .use) with
  | none => exact ⟨_, .inl ⟨_, rfl⟩, fun q m _ => ⟨_, useOn_of_holding hdeeper q m⟩⟩
  | some deeper =>
    cases hhigher : deeper.raised (ev.callLimit * Stacked.framesPerCall) with
    | ok higher => exact absurd ⟨deeper, higher, hdeeper, hhigher⟩ h
    | error why =>
      by_cases hwhy : why = .exhausted
      · obtain rfl := hwhy
        exact ⟨_, .inr ⟨_, _, rfl⟩, fun q m hm => ⟨_, useOn_of_raised hdeeper hhigher q hm⟩⟩
      · refine ⟨.stack why, .inl ⟨_, rfl⟩, fun q m hm => ⟨none, ?_⟩⟩
        rw [useOn_of_raised hdeeper hhigher q hm, reported_of_ne (by simpa using hwhy)]

/-- How a use from outside comes out: it is refused, or an effect is reported, which is that of what it
does with its headroom, or of running out of the stack at once. -/
theorem useOn_cases {q : Stacked α} (hq : q.Apart) (stack : Stack) {m : Machine}
    (hm : m.guards = 0) :
    (∃ why last, useOn frames ev q stack m = (.error (.stack why), m.used "" last []) ∧
      ¬ ev.Grants frames stack ∧ ¬ ev.Outruns frames q stack m) ∨
    ∃ e : Effect α,
      useOn frames ev q stack m =
        (reported (m.used e.text e.last e.events).culprit ev.callLimit e.result,
          m.used e.text e.last e.events) ∧
      ((∃ higher, q.Has higher m.entered e) ∧ ev.Grants frames stack ∨
        e = .only (.error (.stack .exhausted)) m.entered) ∧
      (e.result = .error (.stack .exhausted) ↔ ev.Outruns frames q stack m) := by
  have hguards : m.entered.guards ≠ 0 := by simp [Machine.entered]
  cases hdeeper : stack.holding (frames .use) with
  | none =>
    exact .inl ⟨_, _, useOn_of_holding hdeeper q m, by simp [Grants, hdeeper],
      by simp [Outruns, hdeeper]⟩
  | some deeper =>
    have hraising : ev.Outruns frames q stack m ↔
        (q.raising (ev.callLimit * Stacked.framesPerCall) deeper m.entered).1 =
          .error (.stack .exhausted) := by simp [Outruns, hdeeper]
    rw [hraising, Stacked.raising]
    cases hhigher : deeper.raised (ev.callLimit * Stacked.framesPerCall) with
    | error why =>
      have huse := useOn_of_raised hdeeper hhigher q hm
      by_cases hwhy : why = .exhausted
      · obtain rfl := hwhy
        exact .inr ⟨.only (.error (.stack .exhausted)) m.entered, huse, .inr rfl, iff_of_true rfl rfl⟩
      · rw [reported_of_ne (by simpa using hwhy)] at huse
        exact .inl ⟨why, none, huse, by simp [Grants, hdeeper, hhigher], by simpa using hwhy⟩
    | ok higher =>
      obtain ⟨e, he⟩ := hq.effective higher m.entered hguards
      refine .inr ⟨e, useOn_granted hdeeper hhigher hm he (hq.scopes_eq hguards he),
        .inl ⟨⟨higher, he⟩, deeper, higher, hdeeper, hhigher⟩, ?_⟩
      simp only [he.eq]

/-- Where a use has a value the stack served. -/
theorem serves_of_value {q : Stacked α} (hq : q.Apart) {stack : Stack} {m : Machine}
    (hm : m.guards = 0) {x : α} (h : (useOn frames ev q stack m).1.toOption = some x) :
    ev.Serves frames q stack m := by
  rcases useOn_cases hq stack hm with
    ⟨why, last, huse, _⟩ | ⟨e, huse, horigin, houtruns⟩
  · rw [huse] at h
    cases h
  · rw [huse] at h
    have hresult : e.result ≠ .error (.stack .exhausted) := by
      intro hresult
      rw [hresult] at h
      cases h
    rcases horigin with ⟨_, granted⟩ | rfl
    · exact ⟨granted, fun h => hresult (houtruns.mpr h)⟩
    · exact absurd rfl hresult

/-! ### What a use does within its headroom -/

/-- The first of several formulas is evaluated and its result written before the others. -/
theorem evaluateAllOn_cons (frames : Frames) (ev : Evaluator) (p : Program) (fuel : Nat) (e : Expr)
    (rest : List Expr) : evaluateAllOn frames ev p fuel (e :: rest) = (do
      let x ← enclosed frames ev p fuel e
      Stacked.lift (ev.writeResult x)
      let xs ← evaluateAllOn frames ev p fuel rest
      return x :: xs) := by
  rw [evaluateAllOn]
  congr 1
  funext x
  unfold writeResult
  split <;> rfl

section

variable {Stops : Halt → Prop} {frames frames' : Frames} {low high ev : Evaluator} {p : Program}

theorem Raises.enclosed (raises : Raises Stops frames frames' low high) (fuel : Nat) (e : Expr)
    (bindings : List (String × Float)) : (Evaluator.enclosed frames low p fuel e bindings).Raised Stops
      (Evaluator.enclosed frames' high p fuel e bindings) :=
  raises.under .evaluation (.inScopes _ ((raised_within raises fuel).expression e))

theorem Raises.evaluateAll (raises : Raises Stops frames frames' low high) (fuel : Nat)
    (es : List Expr) : (evaluateAllOn frames low p fuel es).Raised Stops
      (evaluateAllOn frames' high p fuel es) := by
  have hwrite (x : Float) : high.writeResult x = low.writeResult x := by
    simp only [writeResult, raises.prints]
  induction es with
  | nil => exact .pure []
  | cons e rest ih =>
    rw [evaluateAllOn_cons, evaluateAllOn_cons]
    apply (raises.enclosed fuel e []).bind
    intro x
    rw [hwrite]
    apply Stacked.Raised.bind (.lift_report (low.writeResult_eq_report x))
    intro _
    exact ih.bind fun xs => .pure _

/-- With more room or a higher limit a use has the same effect, or is stopped on the way. -/
theorem Raises.within (raises : Raises Stops frames frames' low high) (fuel : Nat) (use : Use) :
    (use.within frames low p fuel).Raised Stops (use.within frames' high p fuel) := by
  cases use with
  | run => exact raises.evaluateAll fuel p.expressions
  | evaluate e bindings => exact (raises.enclosed fuel e bindings).bind fun x => .pure _
  | call name values =>
    exact (raises.under .call ((raised_within raises fuel).call none name values)).bind
      fun x => .pure _

theorem enclosed_erases (fuel : Nat) (e : Expr) (bindings : List (String × Float)) :
    (enclosed .none ev p fuel e bindings).Erases (evaluateTraced ev p fuel e bindings) :=
  .under (.inScopes _ ((unlimited_within ev p fuel).expression e))

theorem evaluateAllOn_erases (fuel : Nat) (es : List Expr) :
    (evaluateAllOn .none ev p fuel es).Erases (evaluateAllTraced ev p fuel es) := by
  induction es with
  | nil => exact .pure []
  | cons e rest ih =>
    rw [evaluateAllOn_cons, evaluateAllTraced]
    apply (enclosed_erases fuel e []).bind
    intro x
    apply Stacked.Erases.bind (.lift _)
    intro _
    exact ih.bind fun xs => .pure _

/-- A use that takes nothing of the stack is the use with its events. -/
theorem Use.within_erases (fuel : Nat) (use : Use) :
    (use.within .none ev p fuel).Erases (use.traced ev p fuel) := by
  cases use with
  | run => exact evaluateAllOn_erases fuel p.expressions
  | evaluate e bindings => exact (enclosed_erases fuel e bindings).bind fun x => .pure _
  | call name values =>
    exact Stacked.Erases.bind (.under ((unlimited_within ev p fuel).call none name values))
      fun x => .pure _

theorem enclosed_refuelled (fuel : Nat) (e : Expr) (bindings : List (String × Float)) :
    (enclosed frames ev p fuel e bindings).Refuelled (enclosed frames ev p (fuel + 1) e bindings) :=
  .under _ (.inScopes _ ((refuelled_within frames ev p fuel).expression e))

theorem evaluateAllOn_refuelled (fuel : Nat) (es : List Expr) :
    (evaluateAllOn frames ev p fuel es).Refuelled (evaluateAllOn frames ev p (fuel + 1) es) := by
  induction es with
  | nil => exact .same _
  | cons e rest ih =>
    rw [evaluateAllOn_cons, evaluateAllOn_cons]
    apply (enclosed_refuelled fuel e []).bind
    intro x
    apply (Stacked.Refuelled.same _).bind
    intro _
    exact ih.bind fun xs => .same _

/-- One more unit of fuel makes no difference to a use that ended. -/
theorem Use.within_refuelled (fuel : Nat) (use : Use) :
    (use.within frames ev p fuel).Refuelled (use.within frames ev p (fuel + 1)) := by
  cases use with
  | run => exact evaluateAllOn_refuelled fuel p.expressions
  | evaluate e bindings => exact (enclosed_refuelled fuel e bindings).bind fun x => .same _
  | call name values =>
    exact Stacked.Refuelled.bind (.under _ ((refuelled_within frames ev p fuel).call none name values))
      fun x => .same _

variable (hinvoke : ev.invoke = Standard.invoke)

include hinvoke

theorem enclosed_apart (fuel : Nat) (e : Expr) (bindings : List (String × Float)) :
    (enclosed frames ev p fuel e bindings).Apart :=
  .under _ (.inScopes _ (evalOn_effective frames hinvoke p fuel e))

theorem evaluateAllOn_apart (fuel : Nat) (es : List Expr) :
    (evaluateAllOn frames ev p fuel es).Apart := by
  induction es with
  | nil => exact .pure []
  | cons e rest ih =>
    rw [evaluateAllOn_cons]
    apply (enclosed_apart hinvoke fuel e []).bind
    intro x
    apply Stacked.Apart.bind (.lift_report (ev.writeResult_eq_report x))
    intro _
    exact ih.bind fun xs => .pure _

/-- A use stands apart from the scopes that it finds. -/
theorem Use.within_apart (fuel : Nat) (use : Use) : (use.within frames ev p fuel).Apart := by
  cases use with
  | run => exact evaluateAllOn_apart hinvoke fuel p.expressions
  | evaluate e bindings => exact (enclosed_apart hinvoke fuel e bindings).bind fun x => .pure _
  | call name values =>
    exact Stacked.Apart.bind (.under _ ((apart_within frames hinvoke p fuel).1 none name values))
      fun x => .pure _

/-- A use is cut, if at all, out of the use with its events. -/
theorem Use.within_cuts (fuel : Nat) (use : Use) :
    (use.within frames ev p fuel).Cuts (use.traced ev p fuel) :=
  .of_erases ((raises_none frames hinvoke).within fuel use) (use.within_erases fuel)

end

/-! ### Deep bodies -/

/-- An expression behind so many additions, `1 + (1 + …)`. -/
def deepened (n : Nat) (e : Expr) : Expr :=
  Nat.repeat (fun e => .binary .plus (.number 1.0 none) e none) n e

/-- The definition of a function `f` of `x` that calls itself behind so many additions, with one less
each time, as long as `x` is not zero. -/
def deepRecursion (n : Nat) : Definition :=
  let next : Expr := .call "f" [.binary .minus (.var "x" none) (.number 1.0 none) none] none
  let done : Expr := .binary .equals (.var "x" none) (.number 0.0 none) none
  ⟨⟨"f", ["x"], none⟩, .cond done (.number 0.0 none) (deepened n next) none⟩

end Evaluator

end Formulary
