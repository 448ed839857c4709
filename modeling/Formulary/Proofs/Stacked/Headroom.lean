import Formulary.Proofs.Stacked.Effect

/-!
# More room and higher limits

Evaluation on a stack and evaluation on one with more room, or with a higher limit on calls under way,
go the same way up to the place where the first of them stops. `Stacked.Raised` relates the two; it is
closed under the ways in which actions on a stack are put together. Which halts may be those of the
first alone is a parameter: that the stack has run out always is, and the error for too many calls is
where the limits differ. A routine that is handed that error could answer otherwise than without it,
so limits may differ only where there are no added functions.
-/

namespace Formulary

open Evaluation

namespace Evaluation

variable {α β : Type}

/-- An effect was halted on the way to another one: its text comes first there, and where the stack
halted it, what happened before that comes first there too, and then bodies ended. -/
structure Effect.Precedes (why : Halt) (low high : Effect α) : Prop where
  text : ∃ more, high.text = low.text ++ more
  events : why = .stack .exhausted → ∃ before rest k,
    low.events = before ++ List.replicate k .ends ∧ high.events = before ++ rest

/-- An effect and the one with more room: the same, or the first was halted on the way. -/
inductive Effect.Follows (Stops : Halt → Prop) : Effect α → Effect α → Prop
  | same (e) : Follows Stops e e
  | stopped {low high : Effect α} {why : Halt} (halted : low.result = .error why)
    (stops : Stops why) (precedes : low.Precedes why high) : Follows Stops low high

/-- They are so related, and end as many bodies as they begin. -/
structure Effect.Related (Stops : Halt → Prop) (low high : Effect α) : Prop where
  follows : low.Follows Stops high
  balanced : active low.events = 0
  balanced' : active high.events = 0

/-- Within a use, an action has an effect on every machine, and another action on a stack with more
room, or as much, has one that is related to it. -/
def Stacked.Raised (Stops : Halt → Prop) (low high : Stacked α) : Prop :=
  ∀ stack higher : Stack, stack.room ≤ higher.room → ∀ m : Machine, m.guards ≠ 0 →
    ∃ e e', low.Has stack m e ∧ high.Has higher m e' ∧ e.Related Stops e'

namespace Effect.Precedes

variable {why : Halt} {low high : Effect α}

/-- Behind the same effect. -/
theorem append {e : Effect β} (h : low.Precedes why high) :
    (e.append low).Precedes why (e.append high) := by
  constructor
  · obtain ⟨more, hmore⟩ := h.text
    exact ⟨more, by simp only [Effect.append, hmore, String.append_assoc]⟩
  · intro hwhy
    obtain ⟨before, rest, k, hlow, hhigh⟩ := h.events hwhy
    exact ⟨e.events ++ before, rest, k, by simp only [Effect.append, hlow, List.append_assoc],
      by simp only [Effect.append, hhigh, List.append_assoc]⟩

/-- Whatever the other goes on with. -/
theorem halted_append (h : low.Precedes why high) (next : Effect β) :
    Effect.Precedes why (low.halted why) (high.append next) := by
  constructor
  · obtain ⟨more, hmore⟩ := h.text
    exact ⟨more ++ next.text, by simp only [Effect.append, Effect.halted, hmore,
      String.append_assoc]⟩
  · intro hwhy
    obtain ⟨before, rest, k, hlow, hhigh⟩ := h.events hwhy
    exact ⟨before, rest ++ next.events, k, hlow, by
      simp only [Effect.append, hhigh, List.append_assoc]⟩

/-- As the body of a definition. -/
theorem asBody (h : low.Precedes why high) (name : String) (d : Definition) :
    (low.asBody name d).Precedes why (high.asBody name d) := by
  refine ⟨h.text, fun hwhy => ?_⟩
  obtain ⟨before, rest, k, hlow, hhigh⟩ := h.events hwhy
  refine ⟨.begins d :: before, rest ++ [.ends], k + 1, ?_, ?_⟩
  · simp [Effect.asBody, hlow, List.replicate_succ']
  · simp [Effect.asBody, hhigh]

end Effect.Precedes

namespace Effect.Related

variable {Stops : Halt → Prop} {e low high : Effect α} {low' high' : Effect β}

/-- An effect that ends as many bodies as it begins is related to itself. -/
theorem same (h : active e.events = 0) : e.Related Stops e := ⟨.same e, h, h⟩

theorem only (result : Except Halt α) (m : Machine) :
    (Effect.only result m).Related Stops (Effect.only result m) := same rfl

/-- Behind the same effect. -/
theorem append (h : active e.events = 0) (h' : low'.Related Stops high') :
    (e.append low').Related Stops (e.append high') := by
  obtain ⟨follows, balanced, balanced'⟩ := h'
  refine ⟨?_, by simp [Effect.append, h, balanced], by simp [Effect.append, h, balanced']⟩
  cases follows with
  | same => exact .same _
  | stopped halted stops precedes => exact .stopped halted stops precedes.append

/-- Where the scopes are changed on both sides. -/
theorem inScopes (h : low.Related Stops high) (change : List Frame → List Frame) :
    Effect.Related Stops { low with scopes := change low.scopes }
      { high with scopes := change high.scopes } := by
  obtain ⟨follows, balanced, balanced'⟩ := h
  refine ⟨?_, balanced, balanced'⟩
  cases follows with
  | same => exact .same _
  | stopped halted stops precedes => exact .stopped halted stops ⟨precedes.text, precedes.events⟩

/-- As the body of a definition. -/
theorem asBody (h : low.Related Stops high) (name : String) (d : Definition) :
    (low.asBody name d).Related Stops (high.asBody name d) := by
  obtain ⟨follows, balanced, balanced'⟩ := h
  have hactive {e : Effect α} (he : active e.events = 0) :
      active (e.asBody name d).events = 0 := by
    simp [Effect.asBody, he, Event.change]
  refine ⟨?_, hactive balanced, hactive balanced'⟩
  cases follows with
  | same => exact .same _
  | stopped halted stops precedes => exact .stopped halted stops (precedes.asBody name d)

end Effect.Related

namespace Stacked.Raised

variable {Stops : Halt → Prop} {low high : Stacked α} {f g : α → Stacked β}

/-- An action that does not need the stack. -/
theorem of_has {p : Stacked α}
    (h : ∀ m, ∃ e, active e.events = 0 ∧ ∀ stack, p.Has stack m e) : p.Raised Stops p := by
  intro stack higher _ m _
  obtain ⟨e, balanced, hp⟩ := h m
  exact ⟨e, e, hp stack, hp higher, .same balanced⟩

/-- A result and nothing else. -/
theorem of_only {p : Stacked α} (h : ∀ m : Machine, ∃ r, ∀ stack written lastCall log,
    p stack (m.recorded written lastCall log) = (r, m.recorded written lastCall log)) :
    p.Raised Stops p := by
  refine of_has fun m => ?_
  obtain ⟨r, hr⟩ := h m
  refine ⟨.only r m, rfl, fun stack written lastCall log => ?_⟩
  rw [hr]
  exact congrArg _ (Effect.after_only r (m.recorded written lastCall log)).symm

theorem pure (x : α) : (Pure.pure x : Stacked α).Raised Stops (Pure.pure x) :=
  of_only fun _ => ⟨.ok x, fun _ _ _ _ => rfl⟩

theorem halt (why : Halt) : (Stacked.halt why : Stacked α).Raised Stops (Stacked.halt why) :=
  of_only fun _ => ⟨.error why, fun _ _ _ _ => rfl⟩

/-- The scopes are the same. -/
theorem scopes : Stacked.scopes.Raised Stops Stacked.scopes :=
  of_only fun m => ⟨.ok m.scopes, fun _ _ _ _ => rfl⟩

/-- So is a refusal. -/
theorem refuse (d : Definition) (f : Fault) :
    (Stacked.refuse d f : Stacked α).Raised Stops (Stacked.refuse d f) :=
  of_has fun _ => ⟨_, rfl, fun _ => .refuse d f⟩

/-- An action that needs no stack, and does not depend on what was written. -/
theorem lift {a : Action α} (h : ∀ s : State, ∃ r scopes out, ∀ written,
    a { s with output := written } = Outcome.ended r { s with scopes, output := written ++ out }) :
    (Stacked.lift a).Raised Stops (Stacked.lift a) := by
  refine of_has fun m => ?_
  obtain ⟨r, scopes, out, ha⟩ := h m.toState
  refine ⟨⟨r.mapError .fault, scopes, none, out, []⟩, rfl, ?_⟩
  intro stack written lastCall log
  have hinner := ha written
  simp only [Stacked.lift, Machine.recorded, hinner]
  cases r <;> rfl

/-- An action that reports. -/
theorem lift_report {a : Action α} {r : Except Fault α} {out : String}
    (h : ∀ s, a s = Outcome.report s out r) : (Stacked.lift a).Raised Stops (Stacked.lift a) :=
  lift fun s => ⟨r, s.scopes, out, fun _ => h _⟩

/-- Fewer frames on the stack. Where there is no room for the first, the second is as it may be. -/
theorem under {frames frames' : Nat} (hframes : frames' ≤ frames)
    (hstops : Stops (.stack .exhausted)) (h : low.Raised Stops high) :
    (low.under frames).Raised Stops (high.under frames') := by
  intro stack higher hroom m hguards
  cases hlow : stack.holding frames with
  | none =>
    cases hhigh : higher.holding frames' with
    | none => exact ⟨_, _, .under_exhausted hlow, .under_exhausted hhigh, .only _ m⟩
    | some deeper' =>
      obtain ⟨_, e', _, hhas, _, _, balanced'⟩ := h deeper' deeper' (Int.le_refl _) m hguards
      refine ⟨_, e', .under_exhausted hlow, .under hhigh hhas, ?_, rfl, balanced'⟩
      exact .stopped rfl hstops
        ⟨⟨e'.text, String.empty_append.symm⟩, fun _ => ⟨[], e'.events, 0, rfl, rfl⟩⟩
  | some deeper =>
    obtain ⟨deeper', hhigh, hdeeper⟩ := Stack.holding_of_room hframes hroom hlow
    obtain ⟨e, e', hhas, hhas', hrelated⟩ := h deeper deeper' hdeeper m hguards
    exact ⟨e, e', .under hlow hhas, .under hhigh hhas', hrelated⟩

/-- A helper. -/
theorem need {frames frames' : Nat} (hframes : frames' ≤ frames)
    (hstops : Stops (.stack .exhausted)) :
    (Stacked.need frames).Raised Stops (Stacked.need frames') :=
  under hframes hstops (pure ())

/-- One action after another. -/
theorem bind (h : low.Raised Stops high) (hf : ∀ x, (f x).Raised Stops (g x)) :
    (low >>= f).Raised Stops (high >>= g) := by
  intro stack higher hroom m hguards
  obtain ⟨e, e', hlow, hhigh, follows, balanced, balanced'⟩ := h stack higher hroom m hguards
  cases follows with
  | same =>
    cases hresult : e.result with
    | error why =>
      exact ⟨_, _, hlow.bind_halted hresult, hhigh.bind_halted hresult, .same balanced⟩
    | ok x =>
      obtain ⟨e₁, e₂, hlow', hhigh', hrelated⟩ := hf x stack higher hroom (e.after m) hguards
      exact ⟨_, _, hlow.bind hresult hlow', hhigh.bind hresult hhigh', .append balanced hrelated⟩
  | stopped halted stops precedes =>
    have hlow' := hlow.bind_halted (f := f) halted
    cases hresult : e'.result with
    | error why' =>
      exact ⟨_, _, hlow', hhigh.bind_halted hresult,
        .stopped rfl stops ⟨precedes.text, precedes.events⟩, balanced, balanced'⟩
    | ok x =>
      obtain ⟨_, e₂, _, hhigh', _, _, hnext⟩ :=
        hf x higher higher (Int.le_refl _) (e'.after m) hguards
      refine ⟨_, _, hlow', hhigh.bind hresult hhigh',
        .stopped rfl stops (precedes.halted_append e₂), balanced, ?_⟩
      simp [Effect.append, balanced', hnext]

/-- What goes on after a value as after a fault, if no fault stops the first of the two alone. -/
theorem attempt {next next' : Except Fault α → Stacked β} (hfault : ∀ e, ¬ Stops (.fault e))
    (h : low.Raised Stops high) (hnext : ∀ r, (next r).Raised Stops (next' r)) :
    (low.attempt next).Raised Stops (high.attempt next') := by
  intro stack higher hroom m hguards
  obtain ⟨e, e', hlow, hhigh, follows, balanced, balanced'⟩ := h stack higher hroom m hguards
  have goesOn (r : Except Fault α) (stack higher : Stack) (hroom : stack.room ≤ higher.room)
      (e : Effect α) := hnext r stack higher hroom (e.after m) hguards
  have hother {why : Halt} (stops : Stops why) (f : Fault) : why ≠ .fault f := by
    rintro rfl
    exact hfault f stops
  cases follows with
  | same =>
    cases hresult : e.result with
    | ok x =>
      obtain ⟨e₁, e₂, hlow', hhigh', hrelated⟩ := goesOn (.ok x) stack higher hroom e
      exact ⟨_, _, hlow.attempt_value hresult hlow', hhigh.attempt_value hresult hhigh',
        .append balanced hrelated⟩
    | error why =>
      cases why with
      | fault f =>
        obtain ⟨e₁, e₂, hlow', hhigh', hrelated⟩ := goesOn (.error f) stack higher hroom e
        exact ⟨_, _, hlow.attempt_fault hresult hlow', hhigh.attempt_fault hresult hhigh',
          .append balanced hrelated⟩
      | stack why =>
        have hnot (f : Fault) : Halt.stack why ≠ .fault f := fun h => nomatch h
        exact ⟨_, _, hlow.attempt_halted _ hresult hnot, hhigh.attempt_halted _ hresult hnot,
          .same balanced⟩
      | outOfFuel =>
        have hnot (f : Fault) : Halt.outOfFuel ≠ .fault f := fun h => nomatch h
        exact ⟨_, _, hlow.attempt_halted _ hresult hnot, hhigh.attempt_halted _ hresult hnot,
          .same balanced⟩
  | stopped halted stops precedes =>
    have hlow' := hlow.attempt_halted next halted (hother stops)
    have hlater (r : Except Fault α) :
        ∃ e₂, (next' r).Has higher (e'.after m) e₂ ∧ active e₂.events = 0 := by
      obtain ⟨_, e₂, _, hhas, _, _, hbalanced⟩ := goesOn r higher higher (Int.le_refl _) e'
      exact ⟨e₂, hhas, hbalanced⟩
    have hrelated (e₂ : Effect β) (hbalanced : active e₂.events = 0) :
        Effect.Related Stops (e.halted _) (e'.append e₂) :=
      ⟨.stopped rfl stops (precedes.halted_append e₂), balanced, by
        simp [Effect.append, balanced', hbalanced]⟩
    cases hresult : e'.result with
    | ok x =>
      obtain ⟨e₂, hhas, hbalanced⟩ := hlater (.ok x)
      exact ⟨_, _, hlow', hhigh.attempt_value hresult hhas, hrelated e₂ hbalanced⟩
    | error why' =>
      by_cases hfaulted : ∃ f, why' = .fault f
      · obtain ⟨f, rfl⟩ := hfaulted
        obtain ⟨e₂, hhas, hbalanced⟩ := hlater (.error f)
        exact ⟨_, _, hlow', hhigh.attempt_fault hresult hhas, hrelated e₂ hbalanced⟩
      · exact ⟨_, _, hlow', hhigh.attempt_halted _ hresult (not_exists.mp hfaulted),
          .stopped rfl stops ⟨precedes.text, precedes.events⟩, balanced, balanced'⟩

/-- In other scopes. -/
theorem inScopes (scopes : List Frame) (h : low.Raised Stops high) :
    (low.inScopes scopes).Raised Stops (high.inScopes scopes) := by
  intro stack higher hroom m hguards
  obtain ⟨e, e', hlow, hhigh, hrelated⟩ := h stack higher hroom { m with scopes } hguards
  exact ⟨_, _, hlow.inScopes, hhigh.inScopes, hrelated.inScopes fun _ => m.scopes⟩

/-- In a new innermost scope. -/
theorem inFrame (frame : Frame) (h : low.Raised Stops high) :
    (low.inFrame frame).Raised Stops (high.inFrame frame) := by
  intro stack higher hroom m hguards
  obtain ⟨e, e', hlow, hhigh, hrelated⟩ :=
    h stack higher hroom { m with scopes := frame :: m.scopes } hguards
  exact ⟨_, _, hlow.inFrame, hhigh.inFrame, hrelated.inScopes List.tail⟩

/-- As the body of a definition. -/
theorem asBody (name : String) (d : Definition) (h : low.Raised Stops high) :
    (low.asBody name d).Raised Stops (high.asBody name d) := by
  intro stack higher hroom m hguards
  obtain ⟨e, e', hlow, hhigh, hrelated⟩ := h stack higher hroom
    { m with activeCalls := m.activeCalls + 1 } hguards
  exact ⟨_, _, hlow.asBody, hhigh.asBody, hrelated.asBody name d⟩

/-- Within a use no headroom is asked for. -/
theorem guarded (limit limit' : Int) (h : low.Raised Stops high) :
    (low.guarded limit).Raised Stops (high.guarded limit') := by
  intro stack higher hroom m hguards
  obtain ⟨e, e', hlow, hhigh, hrelated⟩ := h stack higher hroom m hguards
  exact ⟨e, e', .guarded limit hguards hlow, .guarded limit' hguards hhigh, hrelated⟩

/-- An action that is stopped at once, for what has an effect at all. -/
theorem of_stopped (hstopped : ∀ stack m, ∃ e why, low.Has stack m e ∧ e.result = .error why ∧
      Stops why ∧ active e.events = 0 ∧ ∀ e' : Effect α, e.Precedes why e')
    (h : high.Raised Stops high) : low.Raised Stops high := by
  intro stack higher _ m hguards
  obtain ⟨e, why, he, hwhy, stops, balanced, precedes⟩ := hstopped stack m
  obtain ⟨_, e', _, he', _, _, balanced'⟩ := h higher higher (Int.le_refl _) m hguards
  exact ⟨e, e', he, he', .stopped hwhy stops (precedes e'), balanced, balanced'⟩

/-- Below a limit and below a higher one. In between the first is stopped. -/
theorem below {limit limit' : Int} {otherwise otherwise' : Stacked α} (hlimit : limit ≤ limit')
    (h : low.Raised Stops high) (hother : otherwise.Raised Stops otherwise')
    (hstopped : limit < limit' → ∀ stack m, ∃ e why, otherwise.Has stack m e ∧
      e.result = .error why ∧ Stops why ∧ active e.events = 0 ∧
      ∀ e' : Effect α, e.Precedes why e') :
    (low.below limit otherwise).Raised Stops (high.below limit' otherwise') := by
  intro stack higher hroom m hguards
  by_cases hle' : limit' ≤ m.activeCalls
  · obtain ⟨e, e', he, he', hrelated⟩ := hother stack higher hroom m hguards
    exact ⟨e, e', .below_otherwise (Int.le_trans hlimit hle') he, .below_otherwise hle' he', hrelated⟩
  · by_cases hle : limit ≤ m.activeCalls
    · obtain ⟨e, why, he, hwhy, stops, balanced, precedes⟩ := hstopped (by omega) stack m
      obtain ⟨_, e', _, he', _, _, balanced'⟩ := h higher higher (Int.le_refl _) m hguards
      exact ⟨e, e', .below_otherwise hle he, .below hle' he',
        .stopped hwhy stops (precedes e'), balanced, balanced'⟩
    · obtain ⟨e, e', he, he', hrelated⟩ := h stack higher hroom m hguards
      exact ⟨e, e', .below hle he, .below hle' he', hrelated⟩

end Stacked.Raised

/-- Increasing a variable changes the scopes, and depends on nothing else. -/
theorem Action.increase_eq_ended (name : String) (step : Float) (s : State) :
    ∃ r scopes out, ∀ written, Action.increase name step { s with output := written } =
      Outcome.ended r { s with scopes, output := written ++ out } := by
  obtain ⟨scopes, calls, output⟩ := s
  cases scopes with
  | nil => exact ⟨.ok (), [], "", fun written => by simp [Action.increase, Outcome.ended]⟩
  | cons frame outer =>
    cases hx : frame.get? name with
    | none =>
      exact ⟨.ok (), frame :: outer, "", fun written => by
        simp [Action.increase, hx, Outcome.ended]⟩
    | some x =>
      exact ⟨.ok (), frame.insert name (x + step) :: outer, "", fun written => by
        simp [Action.increase, hx, Outcome.ended]⟩

end Evaluation

namespace Evaluator

/-- An evaluator and its costs, and another one that has the same functions, whose parts take no more
frames, and whose limit is as high or, where there are no added functions, higher. -/
structure Raises (Stops : Halt → Prop) (frames frames' : Frames) (low high : Evaluator) : Prop where
  frames : ∀ part, frames' part ≤ frames part
  exhausted : Stops (.stack .exhausted)
  known : high.known = low.known
  added : high.added = low.added
  invoke : high.invoke = Standard.invoke ∧ low.invoke = Standard.invoke
  prints : high.printsResults = low.printsResults
  limit : low.callLimit = high.callLimit ∨ low.callLimit ≤ high.callLimit ∧
    ∀ name, Stops (.fault (.failed (.callDepthExceeded name low.callLimit)))
  routines : (∀ f, ¬ Stops (.fault f)) ∨ low.added = {}

/-- With some fuel, evaluation and evaluation with more room or a higher limit. -/
structure RaisedWithin (Stops : Halt → Prop) (frames frames' : Frames) (low high : Evaluator)
    (p : Program) (fuel : Nat) : Prop where
  expression : ∀ e, (evalOn frames low p fuel e).Raised Stops (evalOn frames' high p fuel e)
  expressions : ∀ es,
    (evalAllOn frames low p fuel es).Raised Stops (evalAllOn frames' high p fuel es)
  turn : ∀ name stop step body, (turnOn frames low p fuel name stop step body).Raised Stops
    (turnOn frames' high p fuel name stop step body)
  call : ∀ node name values, (callOn frames low p fuel node name values).Raised Stops
    (callOn frames' high p fuel node name values)
  perform : (∀ f, ¬ Stops (.fault f)) → ∀ routine,
    (performOn frames low p fuel routine).Raised Stops (performOn frames' high p fuel routine)

/-- A refusal writes nothing: it ends with the error for too many calls, or the stack runs out. -/
theorem refuseOn_has (frames : Frames) (ev : Evaluator) (name : String) (d : Definition)
    (stack : Stack) (m : Machine) :
    ∃ e, (refuseOn frames ev name d : Stacked Float).Has stack m e ∧ e.text = "" ∧
      (e.result = .error (.stack .exhausted) ∧ e.events = [] ∨
        e.result = .error (.fault (.failed (.callDepthExceeded name ev.callLimit))) ∧
          e.events = [.refused d]) := by
  cases hneed : stack.holding (frames .fault) with
  | none => exact ⟨_, .need_exhausted hneed, rfl, .inl ⟨rfl, rfl⟩⟩
  | some deeper => exact ⟨_, .need_bind hneed (.refuse d _), rfl, .inr ⟨rfl, rfl⟩⟩

/-- So it comes before whatever else may be done in its place. -/
theorem refuseOn_stopped {Stops : Halt → Prop} (frames : Frames) (ev : Evaluator) (name : String)
    (d : Definition) (hexhausted : Stops (.stack .exhausted))
    (hlimit : Stops (.fault (.failed (.callDepthExceeded name ev.callLimit)))) (stack : Stack)
    (m : Machine) : ∃ e why, (refuseOn frames ev name d : Stacked Float).Has stack m e ∧
      e.result = .error why ∧ Stops why ∧ active e.events = 0 ∧
      ∀ e' : Effect Float, e.Precedes why e' := by
  obtain ⟨e, he, htext, ⟨hresult, hevents⟩ | ⟨hresult, hevents⟩⟩ :=
    refuseOn_has frames ev name d stack m
  · refine ⟨e, _, he, hresult, hexhausted, by rw [hevents]; rfl, fun e' => ⟨⟨e'.text, ?_⟩, ?_⟩⟩
    · rw [htext, String.empty_append]
    · exact fun _ => ⟨[], e'.events, 0, hevents, rfl⟩
  · refine ⟨e, _, he, hresult, hlimit, by rw [hevents]; rfl, fun e' => ⟨⟨e'.text, ?_⟩, ?_⟩⟩
    · rw [htext, String.empty_append]
    · exact fun h => nomatch h

section

variable {Stops : Halt → Prop} {frames frames' : Frames} {low high : Evaluator} {p : Program}
  {fuel : Nat} (raises : Raises Stops frames frames' low high)

include raises

theorem Raises.need (part : Part) :
    (Stacked.need (frames part)).Raised Stops (Stacked.need (frames' part)) :=
  .need (raises.frames part) raises.exhausted

theorem Raises.under {α : Type} {q q' : Stacked α} (part : Part) (h : q.Raised Stops q') :
    (q.under (frames part)).Raised Stops (q'.under (frames' part)) :=
  .under (raises.frames part) raises.exhausted h

/-- A fault is the same. -/
theorem Raises.raise {α : Type} (f : Fault) :
    (Evaluator.raise frames f : Stacked α).Raised Stops (Evaluator.raise frames' f) :=
  (raises.need .fault).bind fun _ => .halt _

/-- A use within a use. -/
theorem Raises.useOn {α : Type} {q q' : Stacked α} (h : q.Raised Stops q') :
    (Evaluator.useOn frames low q).Raised Stops (Evaluator.useOn frames' high q') :=
  raises.under .use (.guarded _ _ h)

/-- A call leads to the same. -/
theorem Raises.target_eq (node : Option Expr) (name : String) (values : List Float) :
    high.target p node name values = low.target p node name values := by
  simp only [target, outside, definition?, raises.known, raises.added]

/-- A body that is refused under the lower limit may go on under the higher one. -/
theorem Raises.below {q q' : Stacked Float} (name : String) (d : Definition)
    (h : q.Raised Stops q') :
    (q.below low.callLimit (refuseOn frames low name d)).Raised Stops
      (q'.below high.callLimit (refuseOn frames' high name d)) := by
  have hrefuse (f : Fault) : (do Stacked.need (frames .fault); Stacked.refuse d f :
      Stacked Float).Raised Stops (do Stacked.need (frames' .fault); Stacked.refuse d f) :=
    (raises.need .fault).bind fun _ => .refuse d f
  rcases raises.limit with heq | ⟨hle, hstops⟩
  · refine .below (Int.le_of_eq heq) h ?_ fun hlt => absurd heq (Int.ne_of_lt hlt)
    rw [refuseOn, refuseOn, heq]
    exact hrefuse _
  · have hstopped := refuseOn_stopped frames low name d raises.exhausted (hstops name)
    have hhigh : (refuseOn frames' high name d : Stacked Float).Raised Stops
        (refuseOn frames' high name d) :=
      .bind (.need (Nat.le_refl _) raises.exhausted) fun _ => .refuse d _
    exact .below hle h (.of_stopped hstopped hhigh) fun _ => hstopped

namespace RaisedWithin

omit raises in
theorem zero (Stops : Halt → Prop) (frames frames' : Frames) (low high : Evaluator) (p : Program) :
    RaisedWithin Stops frames frames' low high p 0 := by
  constructor
  · intro e
    cases e <;> exact .halt _
  · intro es
    cases es <;> exact .halt _
  · intros
    exact .halt _
  · intros
    exact .halt _
  · intro _ routine
    cases routine <;> exact .halt _

variable (within : RaisedWithin Stops frames frames' low high p fuel)

include within

theorem expression_succ (e : Expr) :
    (evalOn frames low p (fuel + 1) e).Raised Stops (evalOn frames' high p (fuel + 1) e) := by
  cases e with
  | number value span => exact raises.under .node (.pure value)
  | var name span =>
    apply raises.under .node
    apply Stacked.Raised.scopes.bind
    intro scopes
    cases Action.lookup? name scopes with
    | some x => exact .pure x
    | none => exact raises.raise _
  | binary op left right span =>
    apply raises.under .node
    apply (within.expression left).bind
    intro x
    apply (within.expression right).bind
    intro y
    exact (raises.need .operator).bind fun _ => .pure _
  | call name arguments span =>
    apply raises.under .node
    apply (raises.under .arguments (within.expressions arguments)).bind
    intro values
    exact raises.under .call (within.call _ name values)
  | cond condition consequent alternative span =>
    apply raises.under .node
    apply (within.expression condition).bind
    intro x
    apply (raises.need .condition).bind
    intro _
    split
    · exact within.expression consequent
    · exact within.expression alternative
  | loop name start stop step body span =>
    apply raises.under .node
    apply (within.expression start).bind
    intro x
    exact .inFrame _ (within.turn name stop step body)

omit raises in
theorem expressions_succ (es : List Expr) :
    (evalAllOn frames low p (fuel + 1) es).Raised Stops
      (evalAllOn frames' high p (fuel + 1) es) := by
  cases es with
  | nil => exact .pure []
  | cons e rest =>
    apply (within.expression e).bind
    intro x
    exact (within.expressions rest).bind fun xs => .pure _

theorem turn_succ (name : String) (stop : Expr) (step : Option Expr) (body : Expr) :
    (turnOn frames low p (fuel + 1) name stop step body).Raised Stops
      (turnOn frames' high p (fuel + 1) name stop step body) := by
  apply (within.expression body).bind
  intro _
  apply Stacked.Raised.bind
  · cases step with
    | none => exact .pure _
    | some e => exact within.expression e
  intro size
  apply (within.expression stop).bind
  intro goesOn
  apply (raises.need .operator).bind
  intro _
  apply Stacked.Raised.bind (.lift (Action.increase_eq_ended name size))
  intro _
  apply (raises.need .condition).bind
  intro _
  split
  · exact within.turn name stop step body
  · exact .pure _

theorem call_succ (node : Option Expr) (name : String) (values : List Float) :
    (callOn frames low p (fuel + 1) node name values).Raised Stops
      (callOn frames' high p (fuel + 1) node name values) := by
  rw [callOn, callOn, raises.target_eq]
  apply (raises.need .declaration).bind
  intro _
  cases htarget : low.target p node name values with
  | fault f => exact raises.raise f
  | body d scope =>
    exact raises.below name d (.asBody name d (.inScopes _ (within.expression d.body)))
  | routine routine =>
    refine raises.under .routine (within.perform ?_ routine)
    exact raises.routines.resolve_right fun hadded => target_ne_routine hadded routine htarget
  | standard standard =>
    apply (raises.need .builtin).bind
    intro _
    rw [raises.invoke.1, raises.invoke.2]
    exact .lift_report (standard.invoke_eq_report name values)

theorem perform_succ (hfault : ∀ f, ¬ Stops (.fault f)) (routine : Routine) :
    (performOn frames low p (fuel + 1) routine).Raised Stops
      (performOn frames' high p (fuel + 1) routine) := by
  cases routine with
  | done answer =>
    cases answer with
    | ok x => exact .pure x
    | error f => exact .halt _
  | call name arguments next =>
    apply Stacked.Raised.attempt hfault
    · exact raises.useOn (raises.under .call (within.call none name arguments))
    · exact fun r => within.perform hfault (next r)
  | evaluate e bindings next =>
    apply Stacked.Raised.attempt hfault
    · exact raises.useOn (raises.under .evaluation (.inScopes _ (within.expression e)))
    · exact fun r => within.perform hfault (next r)

end RaisedWithin

/-- Evaluation has the same effect with more room or a higher limit, or is stopped on the way. -/
theorem raised_within (fuel : Nat) : RaisedWithin Stops frames frames' low high p fuel := by
  induction fuel with
  | zero => exact .zero ..
  | succ fuel within =>
    constructor
    · exact within.expression_succ raises
    · exact within.expressions_succ
    · exact within.turn_succ raises
    · exact within.call_succ raises
    · exact within.perform_succ raises

end

end Evaluator

end Formulary
