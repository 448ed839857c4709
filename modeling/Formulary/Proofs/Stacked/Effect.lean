import Formulary.Evaluation.OnStack
import Formulary.Proofs.Evaluation.Active

/-!
# Effects on a machine

Within a use of an evaluator an action on a stack has an `Effect`: a result, the scopes that are in
force then, the body that began last, if one did, a text that is written behind all others, and what
happens to bodies. It does not depend on what was written or happened before, and it leaves the
number of calls under way and of the uses under way as they are, whether the action ends with a value
or is halted. There is one rule for each way in which actions are put together.
-/

namespace Formulary

open Evaluation

namespace Evaluation

variable {α β : Type}

/-- What ends with a value or with a fault is not halted by the stack. -/
@[simp]
theorem mapError_fault_ne_stack (r : Except Fault α) (e : Stack.Error) :
    r.mapError Halt.fault ≠ .error (.stack e) := by
  cases r <;> simp [Except.mapError]

/-- Nor for want of fuel. -/
@[simp]
theorem mapError_fault_ne_outOfFuel (r : Except Fault α) :
    r.mapError Halt.fault ≠ .error .outOfFuel := by
  cases r <;> simp [Except.mapError]

/-- The machine with other records: of what was written, of the body that began last, and of what has
happened. -/
def Machine.recorded (m : Machine) (written : String) (lastCall : Option String)
    (log : List Event) : Machine :=
  { m with output := written, lastCall, events := log }

/-- What an action does to a machine. -/
structure Effect (α : Type) where
  result : Except Halt α
  scopes : List Frame
  last : Option String
  text : String
  events : List Event

namespace Effect

/-- The machine that an effect leaves behind. -/
def after (e : Effect α) (m : Machine) : Machine :=
  { m with
    scopes := e.scopes
    lastCall := e.last.or m.lastCall
    output := m.output ++ e.text
    events := e.events.reverse ++ m.events }

/-- Nothing but a result. -/
def only (result : Except Halt α) (m : Machine) : Effect α := ⟨result, m.scopes, none, "", []⟩

/-- One effect behind another, of which the result is dropped. -/
def append (e : Effect α) (e' : Effect β) : Effect β :=
  ⟨e'.result, e'.scopes, e'.last.or e.last, e.text ++ e'.text, e.events ++ e'.events⟩

/-- The effect with a halt for its result. -/
def halted (e : Effect α) (h : Halt) : Effect β := ⟨.error h, e.scopes, e.last, e.text, e.events⟩

/-- The effect of the body of a definition as a call of a name, that of the body being given. -/
def asBody (e : Effect α) (name : String) (d : Definition) : Effect α :=
  { e with last := e.last.or (some name), events := .begins d :: e.events ++ [.ends] }

theorem after_only (result : Except Halt α) (m : Machine) : (only result m).after m = m := by
  simp [only, after]

theorem after_append (e : Effect α) (e' : Effect β) (m : Machine) :
    (e.append e').after m = e'.after (e.after m) := by
  simp [append, after, String.append_assoc, Option.or_assoc]

end Effect

namespace Stacked

/-- An action has an effect on a machine, whatever was written and has happened before. -/
def Has (p : Stacked α) (stack : Stack) (m : Machine) (e : Effect α) : Prop :=
  ∀ written lastCall log, p stack (m.recorded written lastCall log) =
    (e.result, e.after (m.recorded written lastCall log))

namespace Has

variable {p : Stacked α} {f : α → Stacked β} {stack : Stack} {m : Machine} {e : Effect α}
  {e' : Effect β}

/-- On the machine itself. -/
theorem eq (h : p.Has stack m e) : p stack m = (e.result, e.after m) :=
  h m.output m.lastCall m.events

/-- Whatever the records. -/
theorem recorded (h : p.Has stack m e) (written : String) (lastCall : Option String)
    (log : List Event) : p.Has stack (m.recorded written lastCall log) e :=
  fun written lastCall log => h written lastCall log

/-- An effect is the only one. -/
theorem unique {e' : Effect α} (h : p.Has stack m e) (h' : p.Has stack m e') : e = e' := by
  have hpair := (h "" none []).symm.trans ( h' "" none [])
  obtain ⟨result, scopes, last, text, events⟩ := e
  obtain ⟨result', scopes', last', text', events'⟩ := e'
  simp only [Effect.after, Machine.recorded, Prod.mk.injEq, Machine.mk.injEq, State.mk.injEq,
    String.empty_append, Option.or_none, List.append_nil, List.reverse_inj] at hpair
  obtain ⟨rfl, ⟨rfl, _, rfl⟩, _, rfl, rfl⟩ := hpair
  rfl

/-- What only has a result. -/
theorem of_only {result : Except Halt α} (h : ∀ m', p stack m' = (result, m')) :
    p.Has stack m (.only result m) := by
  intro written lastCall log
  rw [h]
  exact congrArg _ (Effect.after_only result (m.recorded written lastCall log)).symm

/-- One action after another. -/
theorem bind (h : p.Has stack m e) {x : α} (hx : e.result = .ok x)
    (h' : (f x).Has stack (e.after m) e') : (p >>= f).Has stack m (e.append e') := by
  intro written lastCall log
  change Stacked.bind p f stack _ = _
  rw [Stacked.bind, h, hx, Effect.after_append]
  exact h' (written ++ e.text) (e.last.or lastCall) (e.events.reverse ++ log)

/-- An action that is halted halts those after it. -/
theorem bind_halted (h : p.Has stack m e) {why : Halt} (hwhy : e.result = .error why) :
    (p >>= f).Has stack m (e.halted why) := by
  intro written lastCall log
  change Stacked.bind p f stack _ = _
  rw [Stacked.bind, h, hwhy]
  rfl

/-- After a value. -/
theorem attempt_value {next : Except Fault α → Stacked β} (h : p.Has stack m e) {x : α}
    (hx : e.result = .ok x) (h' : (next (.ok x)).Has stack (e.after m) e') :
    (p.attempt next).Has stack m (e.append e') := by
  intro written lastCall log
  rw [Stacked.attempt, h, hx, Effect.after_append]
  exact h' (written ++ e.text) (e.last.or lastCall) (e.events.reverse ++ log)

/-- After a fault. -/
theorem attempt_fault {next : Except Fault α → Stacked β} (h : p.Has stack m e) {why : Fault}
    (hwhy : e.result = .error (.fault why)) (h' : (next (.error why)).Has stack (e.after m) e') :
    (p.attempt next).Has stack m (e.append e') := by
  intro written lastCall log
  rw [Stacked.attempt, h, hwhy, Effect.after_append]
  exact h' (written ++ e.text) (e.last.or lastCall) (e.events.reverse ++ log)

/-- Other halts are not taken up. -/
theorem attempt_halted (next : Except Fault α → Stacked β) (h : p.Has stack m e) {why : Halt}
    (hwhy : e.result = .error why) (hother : ∀ f, why ≠ .fault f) :
    (p.attempt next).Has stack m (e.halted why) := by
  intro written lastCall log
  rw [Stacked.attempt, h, hwhy]
  cases why with
  | fault f => exact absurd rfl (hother f)
  | stack e => rfl
  | outOfFuel => rfl

/-- With more frames on the stack. -/
theorem under {frames : Nat} {deeper : Stack} (hdeeper : stack.holding frames = some deeper)
    (h : p.Has deeper m e) : (p.under frames).Has stack m e := by
  intro written lastCall log
  rw [Stacked.under, hdeeper]
  exact h written lastCall log

/-- Without room for them. -/
theorem under_exhausted {frames : Nat} (h : stack.holding frames = none) :
    (p.under frames).Has stack m (.only (.error (.stack .exhausted)) m) := by
  refine of_only fun m' => ?_
  rw [Stacked.under, h]

/-- Behind a helper that there is room for. -/
theorem need_bind {frames : Nat} {deeper : Stack} (hdeeper : stack.holding frames = some deeper)
    (h : p.Has stack m e) : (do Stacked.need frames; p).Has stack m e := by
  intro written lastCall log
  change Stacked.bind (Stacked.need frames) (fun _ => p) stack _ = _
  rw [Stacked.bind, Stacked.need, Stacked.under, hdeeper]
  exact h written lastCall log

/-- Behind a helper that there is no room for. -/
theorem need_exhausted {frames : Nat} (h : stack.holding frames = none) :
    (do Stacked.need frames; p).Has stack m (.only (.error (.stack .exhausted)) m) := by
  refine of_only fun m' => ?_
  change Stacked.bind (Stacked.need frames) (fun _ => p) stack m' = _
  rw [Stacked.bind, Stacked.need, Stacked.under, h]

/-- A body that is refused. -/
theorem refuse (d : Definition) (f : Fault) : (Stacked.refuse d f : Stacked α).Has stack m
    ⟨.error (.fault f), m.scopes, none, "", [.refused d]⟩ := by
  intro written lastCall log
  simp [Stacked.refuse, Effect.after, Machine.recorded]

/-- Below a limit. -/
theorem below {limit : Int} {otherwise : Stacked α} (hlimit : ¬ limit ≤ m.activeCalls)
    (h : p.Has stack m e) : (p.below limit otherwise).Has stack m e :=
  fun written lastCall log => (if_neg hlimit).trans (h written lastCall log)

/-- From a limit on. -/
theorem below_otherwise {limit : Int} {otherwise : Stacked α} (hlimit : limit ≤ m.activeCalls)
    (h : otherwise.Has stack m e) : (p.below limit otherwise).Has stack m e :=
  fun written lastCall log => (if_pos hlimit).trans (h written lastCall log)

/-- Within a use no headroom is asked for. -/
theorem guarded (limit : Int) (hguards : m.guards ≠ 0) (h : p.Has stack m e) :
    (p.guarded limit).Has stack m e :=
  fun written lastCall log => (if_pos hguards).trans (h written lastCall log)

/-- In other scopes. -/
theorem inScopes {scopes : List Frame} (h : p.Has stack { m with scopes } e) :
    (p.inScopes scopes).Has stack m { e with scopes := m.scopes } := by
  intro written lastCall log
  have hinner := h written lastCall log
  change p stack { m.recorded written lastCall log with scopes } = _ at hinner
  rw [Stacked.inScopes, hinner]
  rfl

/-- In a new innermost scope. -/
theorem inFrame {frame : Frame} (h : p.Has stack { m with scopes := frame :: m.scopes } e) :
    (p.inFrame frame).Has stack m { e with scopes := e.scopes.tail } := by
  intro written lastCall log
  have hinner := h written lastCall log
  change p stack { m.recorded written lastCall log with
    scopes := frame :: (m.recorded written lastCall log).scopes } = _ at hinner
  rw [Stacked.inFrame, hinner]
  rfl

/-- As the body of a definition, which began last if no other did since. -/
theorem asBody {name : String} {d : Definition}
    (h : p.Has stack { m with activeCalls := m.activeCalls + 1 } e) :
    (p.asBody name d).Has stack m (e.asBody name d) := by
  intro written lastCall log
  have hinner := h written (some name) (.begins d :: log)
  simp only [Machine.recorded] at hinner
  simp only [Stacked.asBody, Machine.recorded, hinner]
  simp [Effect.after, Effect.asBody]

end Has

end Stacked

end Evaluation

end Formulary
