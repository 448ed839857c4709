import Formulary.Proofs.Stacked.Headroom

/-!
# Evaluation that takes nothing of the stack

If no part takes any frames, then evaluation on a stack is the evaluation of
`Formulary.Evaluation.Basic`, with the same events: the stack never runs out. What is shown of
evaluation without a stack therefore holds up to the place where a stack runs out, and what is shown
of its events holds of the events on a stack.
-/

namespace Formulary

open Evaluation

namespace Evaluation

variable {α β : Type}

/-- What an action on a stack comes to is what an action with its events comes to. Where it is out of
fuel, bodies end that had begun. -/
inductive Erased (m : Machine) :
    Except Halt α × Machine → Outcome α → List Event → Prop
  | ended (r : Except Fault α) (after : State) (lastCall events) :
    Erased m (r.mapError .fault,
      { m with toState := after, lastCall, events := events.reverse ++ m.events })
      (Outcome.ended r after) events
  | outOfFuel {last events k}
    (hevents : last.events = (events ++ List.replicate k .ends).reverse ++ m.events) :
    Erased m (.error .outOfFuel, last) .outOfFuel events

/-- Within a use, an action on a stack comes to what an action with its events comes to. -/
def Stacked.Erases (q : Stacked α) (t : Traced α) : Prop :=
  ∀ stack (m : Machine), m.guards ≠ 0 →
    Erased m (q stack m) (t.action m.toState) (t.events m.toState)

/-- Behind other events. -/
theorem Erased.behind {m : Machine} {after : State} {lastCall : Option String} {events : List Event}
    {result : Except Halt α × Machine} {o : Outcome α} {more : List Event}
    (h : Erased { m with toState := after, lastCall, events := events.reverse ++ m.events }
      result o more) : Erased m result o (events ++ more) := by
  cases h with
  | ended r last lastCall' =>
    have hlast := Erased.ended (m := m) r last lastCall' (events ++ more)
    rwa [List.reverse_append, List.append_assoc] at hlast
  | @outOfFuel last _ k hevents =>
    refine .outOfFuel (k := k) ?_
    rw [hevents]
    simp

namespace Stacked.Erases

variable {q : Stacked α} {t : Traced α} {f : α → Stacked β} {g : α → Traced β}

theorem pure (x : α) : (Pure.pure x : Stacked α).Erases (Pure.pure x) :=
  fun _ m _ => .ended (.ok x) m.toState m.lastCall []

theorem outOfFuel : (Stacked.halt .outOfFuel : Stacked α).Erases (.quiet .outOfFuel) :=
  fun _ _ _ => .outOfFuel (k := 0) rfl

/-- A fault. -/
theorem stop (e : Fault) : (Stacked.halt (.fault e) : Stacked α).Erases (.quiet (.stop e)) :=
  fun _ m _ => .ended (.error e) m.toState m.lastCall []

/-- An action that needs no stack. -/
theorem lift (a : Action α) : (Stacked.lift a).Erases (.quiet a) := by
  intro stack m _
  change Erased m (Stacked.lift a stack m) (a m.toState) []
  unfold Stacked.lift
  cases a m.toState with
  | value x after => exact .ended (.ok x) after m.lastCall []
  | fault e after => exact .ended (.error e) after m.lastCall []
  | outOfFuel => exact .outOfFuel (k := 0) rfl

/-- A body that is refused. -/
theorem refuse (d : Definition) (e : Fault) :
    (Stacked.refuse d e : Stacked α).Erases (.refuse d e) :=
  fun _ m _ => .ended (.error e) m.toState m.lastCall [.refused d]

/-- No frames are there always. -/
theorem under (h : q.Erases t) : (q.under 0).Erases t := by
  intro stack m hguards
  rw [Stacked.under, stack.holding_zero]
  exact h stack m hguards

/-- A helper that takes none does nothing. -/
theorem need_bind {q : Stacked β} {t : Traced β} (h : q.Erases t) :
    (do Stacked.need 0; q).Erases t := by
  intro stack m hguards
  change Erased m (Stacked.bind (Stacked.need 0) (fun _ => q) stack m) _ _
  rw [Stacked.bind, Stacked.need, Stacked.under, stack.holding_zero]
  exact h stack m hguards

/-- One action after another. -/
theorem bind (hq : q.Erases t) (hf : ∀ x, (f x).Erases (g x)) : (q >>= f).Erases (t >>= g) := by
  intro stack m hguards
  have h := hq stack m hguards
  change Erased m (Stacked.bind q f stack m) (Action.bind t.action (fun x => (g x).action) m.toState)
    ((Traced.bind t g).events m.toState)
  unfold Stacked.bind Action.bind Traced.bind
  dsimp only
  generalize q stack m = result at h
  generalize t.action m.toState = o at h
  generalize t.events m.toState = events at h
  cases h with
  | ended r after lastCall =>
    cases r with
    | ok x =>
      exact .behind (hf x stack
        { m with toState := after, lastCall, events := events.reverse ++ m.events } hguards)
    | error e =>
      change Erased m _ _ (events ++ [])
      rw [List.append_nil]
      exact .ended (.error e) after lastCall events
  | @outOfFuel last _ k hevents =>
    refine .outOfFuel (k := k) ?_
    simpa [Outcome.sequel] using hevents

/-- Reading the scopes is reading the state. -/
theorem scopes_bind {f : List Frame → Stacked α} {g : State → Action α}
    (h : ∀ s, (f s.scopes).Erases (.quiet (g s))) :
    (Stacked.scopes >>= f).Erases (.quiet (Action.state >>= g)) :=
  fun stack m hguards => h m.toState stack m hguards

/-- What goes on after a value as after a fault. -/
theorem attempt {next : Except Fault α → Stacked β} {next' : Except Fault α → Traced β}
    (hq : q.Erases t) (hnext : ∀ r, (next r).Erases (next' r)) :
    (q.attempt next).Erases (t.attempt next') := by
  intro stack m hguards
  have h := hq stack m hguards
  change Erased m (Stacked.attempt q next stack m)
    (Action.attempt t.action (fun r => (next' r).action) m.toState)
    (t.events m.toState ++ (t.action m.toState).sequel fun r after => (next' r).events after)
  unfold Stacked.attempt Action.attempt
  generalize q stack m = result at h
  generalize t.action m.toState = o at h
  generalize t.events m.toState = events at h
  cases h with
  | ended r after lastCall =>
    cases r with
    | ok x =>
      exact .behind (hnext (.ok x) stack
        { m with toState := after, lastCall, events := events.reverse ++ m.events } hguards)
    | error e =>
      exact .behind (hnext (.error e) stack
        { m with toState := after, lastCall, events := events.reverse ++ m.events } hguards)
  | @outOfFuel last _ k hevents =>
    refine .outOfFuel (k := k) ?_
    simpa [Outcome.sequel] using hevents

/-- In other scopes. -/
theorem inScopes (scopes : List Frame) (h : q.Erases t) :
    (q.inScopes scopes).Erases (t.inScopes scopes) := by
  intro stack m hguards
  have h := h stack { m with scopes } hguards
  change Erased m (Stacked.inScopes scopes q stack m)
    (Action.mapState _ (t.action { m.toState with scopes })) (t.events { m.toState with scopes })
  unfold Stacked.inScopes
  generalize q stack { m with scopes } = result at h
  generalize t.action { m.toState with scopes } = o at h
  generalize t.events { m.toState with scopes } = events at h
  cases h with
  | ended r after lastCall =>
    cases r with
    | ok x => exact .ended (.ok x) { after with scopes := m.scopes } lastCall events
    | error e => exact .ended (.error e) { after with scopes := m.scopes } lastCall events
  | @outOfFuel last _ k hevents => exact .outOfFuel (k := k) hevents

/-- In a new innermost scope. -/
theorem inFrame (frame : Frame) (h : q.Erases t) : (q.inFrame frame).Erases (t.inFrame frame) := by
  intro stack m hguards
  have h := h stack { m with scopes := frame :: m.scopes } hguards
  change Erased m (Stacked.inFrame frame q stack m)
    (Action.mapState _ (t.action (m.toState.inFrame frame))) (t.events (m.toState.inFrame frame))
  change Erased _ _ (t.action (m.toState.inFrame frame)) (t.events (m.toState.inFrame frame)) at h
  unfold Stacked.inFrame
  generalize q stack { m with scopes := frame :: m.scopes } = result at h
  generalize t.action (m.toState.inFrame frame) = o at h
  generalize t.events (m.toState.inFrame frame) = events at h
  cases h with
  | ended r after lastCall =>
    cases r with
    | ok x => exact .ended (.ok x) { after with scopes := after.scopes.tail } lastCall events
    | error e =>
      exact .ended (.error e) { after with scopes := after.scopes.tail } lastCall events
  | @outOfFuel last _ k hevents => exact .outOfFuel (k := k) hevents

/-- As the body of a definition. -/
theorem asBody (name : String) (d : Definition) (h : q.Erases t) :
    (q.asBody name d).Erases (t.asBody d) := by
  intro stack m hguards
  have h := h stack
    { m with
      activeCalls := m.activeCalls + 1
      lastCall := some name
      events := .begins d :: m.events } hguards
  change Erased m (Stacked.asBody name d q stack m)
    (Action.mapState _ (t.action { m.toState with activeCalls := m.activeCalls + 1 }))
    (.begins d :: t.events { m.toState with activeCalls := m.activeCalls + 1 } ++
      (t.action { m.toState with activeCalls := m.activeCalls + 1 }).sequel fun _ _ => [.ends])
  unfold Stacked.asBody
  change Erased _ _ (t.action { m.toState with activeCalls := m.activeCalls + 1 })
    (t.events { m.toState with activeCalls := m.activeCalls + 1 }) at h
  generalize q stack _ = result at h
  generalize t.action { m.toState with activeCalls := m.activeCalls + 1 } = o at h
  generalize t.events { m.toState with activeCalls := m.activeCalls + 1 } = events at h
  cases h with
  | ended r after lastCall =>
    have hended := Erased.ended (m := m) r { after with activeCalls := after.activeCalls - 1 } lastCall
      (.begins d :: events ++ [.ends])
    cases r <;> simpa [Outcome.ended, Outcome.sequel, Action.mapState] using hended
  | @outOfFuel last _ k hevents =>
    refine .outOfFuel (k := k + 1) ?_
    simp [hevents, Outcome.sequel, List.replicate_succ']

/-- Below a limit the body, and from there on the refusal. -/
theorem below {limit : Int} {otherwise : Stacked α} {t' : Traced α} (h : q.Erases t)
    (h' : otherwise.Erases t') : (q.below limit otherwise).Erases (do
      let s ← Traced.quiet Action.state
      if limit ≤ s.activeCalls then t' else t) := by
  intro stack m hguards
  change Erased m (if limit ≤ m.activeCalls then otherwise stack m else q stack m)
    ((if limit ≤ m.activeCalls then t' else t).action m.toState)
    ((if limit ≤ m.activeCalls then t' else t).events m.toState)
  split
  · exact h' stack m hguards
  · exact h stack m hguards

/-- Within a use no headroom is asked for. -/
theorem guarded (limit : Int) (h : q.Erases t) : (q.guarded limit).Erases t := by
  intro stack m hguards
  rw [Stacked.guarded, if_pos hguards]
  exact h stack m hguards

end Stacked.Erases

end Evaluation

namespace Evaluator

variable {ev : Evaluator} {p : Program} {fuel : Nat}

/-- A fault that takes nothing of the stack. -/
theorem raise_erases {α : Type} (f : Fault) :
    (raise .none f : Stacked α).Erases (.quiet (.stop f)) := .need_bind (.stop f)

/-- A use within a use is what it does. -/
theorem useOn_erases {α : Type} {q : Stacked α} {t : Traced α} (h : q.Erases t) :
    (useOn .none ev q).Erases t := .under (.guarded _ h)

/-- With some fuel, evaluation that takes nothing of the stack is evaluation. -/
structure UnlimitedWithin (ev : Evaluator) (p : Program) (fuel : Nat) : Prop where
  expression : ∀ e, (evalOn .none ev p fuel e).Erases (evalTraced ev p fuel e)
  expressions : ∀ es, (evalAllOn .none ev p fuel es).Erases (evalAllTraced ev p fuel es)
  turn : ∀ name stop step body,
    (turnOn .none ev p fuel name stop step body).Erases (turnTraced ev p fuel name stop step body)
  call : ∀ node name values,
    (callOn .none ev p fuel node name values).Erases (callTraced ev p fuel node name values)
  perform : ∀ routine, (performOn .none ev p fuel routine).Erases (performTraced ev p fuel routine)

namespace UnlimitedWithin

theorem zero (ev : Evaluator) (p : Program) : UnlimitedWithin ev p 0 := by
  constructor
  · intro e
    cases e <;> exact .outOfFuel
  · intro es
    cases es <;> exact .outOfFuel
  · intros
    exact .outOfFuel
  · intros
    exact .outOfFuel
  · intro routine
    cases routine <;> exact .outOfFuel

section

variable (within : UnlimitedWithin ev p fuel)

include within

theorem expression_succ (e : Expr) :
    (evalOn .none ev p (fuel + 1) e).Erases (evalTraced ev p (fuel + 1) e) := by
  cases e with
  | number value span => exact .under (.pure value)
  | var name span =>
    rw [evalTraced, eval]
    apply Stacked.Erases.under
    apply Stacked.Erases.scopes_bind
    intro s
    cases Action.lookup? name s.scopes with
    | some x => exact .pure x
    | none => exact raise_erases _
  | binary op left right span =>
    apply Stacked.Erases.under
    apply (within.expression left).bind
    intro x
    apply (within.expression right).bind
    intro y
    exact .need_bind (.pure _)
  | call name arguments span =>
    apply Stacked.Erases.under
    apply Stacked.Erases.bind (.under (within.expressions arguments))
    intro values
    exact .under (within.call _ name values)
  | cond condition consequent alternative span =>
    apply Stacked.Erases.under
    apply (within.expression condition).bind
    intro x
    apply Stacked.Erases.need_bind
    split
    · exact within.expression consequent
    · exact within.expression alternative
  | loop name start stop step body span =>
    apply Stacked.Erases.under
    apply (within.expression start).bind
    intro x
    exact .inFrame _ (within.turn name stop step body)

theorem expressions_succ (es : List Expr) :
    (evalAllOn .none ev p (fuel + 1) es).Erases (evalAllTraced ev p (fuel + 1) es) := by
  cases es with
  | nil => exact .pure []
  | cons e rest =>
    apply (within.expression e).bind
    intro x
    exact (within.expressions rest).bind fun xs => .pure _

theorem turn_succ (name : String) (stop : Expr) (step : Option Expr) (body : Expr) :
    (turnOn .none ev p (fuel + 1) name stop step body).Erases
      (turnTraced ev p (fuel + 1) name stop step body) := by
  apply (within.expression body).bind
  intro _
  apply Stacked.Erases.bind
  · cases step with
    | none => exact .pure _
    | some e => exact within.expression e
  intro size
  apply (within.expression stop).bind
  intro goesOn
  apply Stacked.Erases.need_bind
  apply Stacked.Erases.bind (.lift _)
  intro _
  apply Stacked.Erases.need_bind
  split
  · exact within.turn name stop step body
  · exact .pure _

theorem call_succ (node : Option Expr) (name : String) (values : List Float) :
    (callOn .none ev p (fuel + 1) node name values).Erases
      (callTraced ev p (fuel + 1) node name values) := by
  rw [callOn, callTraced]
  apply Stacked.Erases.need_bind
  cases ev.target p node name values with
  | fault f => exact raise_erases f
  | body d scope =>
    exact .below (.asBody name d (.inScopes _ (within.expression d.body)))
      (.need_bind (.refuse d _))
  | routine routine => exact .under (within.perform routine)
  | standard standard => exact .need_bind (.lift _)

theorem perform_succ (routine : Routine) :
    (performOn .none ev p (fuel + 1) routine).Erases (performTraced ev p (fuel + 1) routine) := by
  cases routine with
  | done answer =>
    cases answer with
    | ok x => exact .pure x
    | error f => exact .stop f
  | call name arguments next =>
    apply Stacked.Erases.attempt
    · exact useOn_erases (.under (within.call none name arguments))
    · exact fun r => within.perform (next r)
  | evaluate e bindings next =>
    apply Stacked.Erases.attempt
    · exact useOn_erases (.under (.inScopes _ (within.expression e)))
    · exact fun r => within.perform (next r)

end

end UnlimitedWithin

/-- Evaluation that takes nothing of the stack is evaluation. -/
theorem unlimited_within (ev : Evaluator) (p : Program) (fuel : Nat) :
    UnlimitedWithin ev p fuel := by
  induction fuel with
  | zero => exact .zero ev p
  | succ fuel within =>
    constructor
    · exact within.expression_succ
    · exact within.expressions_succ
    · exact within.turn_succ
    · exact within.call_succ
    · exact within.perform_succ

end Evaluator

end Formulary
