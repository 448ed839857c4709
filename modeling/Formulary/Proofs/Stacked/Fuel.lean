import Formulary.Evaluation.OnStack

/-!
# More fuel

Fuel only decides whether an evaluation on a stack ends. `Stacked.Refuelled` compares an action with
the same one that has more fuel: it is out of fuel, or the two do the same. That the stack has run
out is an end like others here, so what has ended in this way does so with any more fuel.
-/

namespace Formulary

open Evaluation

namespace Evaluation

variable {α β : Type}

/-- An action is out of fuel, or does what another one does that has more. -/
def Stacked.Refuelled (less more : Stacked α) : Prop :=
  ∀ stack m, (less stack m).1 = .error .outOfFuel ∨ more stack m = less stack m

namespace Stacked.Refuelled

variable {less more : Stacked α} {f g : α → Stacked β}

theorem same (p : Stacked α) : p.Refuelled p := fun _ _ => .inr rfl

theorem outOfFuel (p : Stacked α) : (Stacked.halt .outOfFuel).Refuelled p := fun _ _ => .inl rfl

theorem trans {most : Stacked α} (h : less.Refuelled more) (h' : more.Refuelled most) :
    less.Refuelled most := by
  intro stack m
  rcases h stack m with hout | heq
  · exact .inl hout
  · rcases h' stack m with hout | heq'
    · exact .inl (by rw [← heq, hout])
    · exact .inr (heq'.trans heq)

/-- With more units of fuel, if one more makes no difference. -/
theorem of_le {q : Nat → Stacked α} (h : ∀ fuel, (q fuel).Refuelled (q (fuel + 1)))
    {fuel fuel' : Nat} (hle : fuel ≤ fuel') : (q fuel).Refuelled (q fuel') := by
  induction hle with
  | refl => exact .same _
  | step _ ih => exact ih.trans (h _)

/-- One action after another. -/
theorem bind (h : less.Refuelled more) (hf : ∀ x, (f x).Refuelled (g x)) :
    (less >>= f).Refuelled (more >>= g) := by
  intro stack m
  change (Stacked.bind less f stack m).1 = _ ∨
    Stacked.bind more g stack m = Stacked.bind less f stack m
  unfold Stacked.bind
  have h := h stack m
  generalize less stack m = first at h
  obtain ⟨result, after⟩ := first
  rcases h with hout | heq
  · obtain rfl : result = .error .outOfFuel := hout
    exact .inl rfl
  · rw [heq]
    cases result with
    | ok x => exact hf x stack after
    | error why => exact .inr rfl

/-- What goes on after a value as after a fault. -/
theorem attempt {next next' : Except Fault α → Stacked β} (h : less.Refuelled more)
    (hnext : ∀ r, (next r).Refuelled (next' r)) :
    (less.attempt next).Refuelled (more.attempt next') := by
  intro stack m
  unfold Stacked.attempt
  have h := h stack m
  generalize less stack m = first at h
  obtain ⟨result, after⟩ := first
  rcases h with hout | heq
  · obtain rfl : result = .error .outOfFuel := hout
    exact .inl rfl
  · rw [heq]
    match result with
    | .ok x => exact hnext (.ok x) stack after
    | .error (.fault e) => exact hnext (.error e) stack after
    | .error (.stack e) => exact .inr rfl
    | .error .outOfFuel => exact .inl rfl

theorem under (frames : Nat) (h : less.Refuelled more) :
    (less.under frames).Refuelled (more.under frames) := by
  intro stack m
  unfold Stacked.under
  cases stack.holding frames with
  | none => exact .inr rfl
  | some deeper => exact h deeper m

theorem inScopes (scopes : List Frame) (h : less.Refuelled more) :
    (less.inScopes scopes).Refuelled (more.inScopes scopes) := by
  intro stack m
  unfold Stacked.inScopes
  rcases h stack { m with scopes } with hout | heq
  · exact .inl hout
  · exact .inr (by rw [heq])

theorem inFrame (frame : Frame) (h : less.Refuelled more) :
    (less.inFrame frame).Refuelled (more.inFrame frame) := by
  intro stack m
  unfold Stacked.inFrame
  rcases h stack { m with scopes := frame :: m.scopes } with hout | heq
  · exact .inl hout
  · exact .inr (by rw [heq])

theorem asBody (name : String) (d : Definition) (h : less.Refuelled more) :
    (less.asBody name d).Refuelled (more.asBody name d) := by
  intro stack m
  unfold Stacked.asBody
  rcases h stack _ with hout | heq
  · exact .inl hout
  · exact .inr (by rw [heq])

theorem below {limit : Int} {otherwise : Stacked α} (h : less.Refuelled more) :
    (less.below limit otherwise).Refuelled (more.below limit otherwise) := by
  intro stack m
  unfold Stacked.below
  split
  · exact .inr rfl
  · exact h stack m

theorem raising (frames : Int) (h : less.Refuelled more) :
    (less.raising frames).Refuelled (more.raising frames) := by
  intro stack m
  unfold Stacked.raising
  cases stack.raised frames with
  | error e => exact .inr rfl
  | ok higher => exact h higher m

theorem reporting (limit : Int) (h : less.Refuelled more) :
    (less.reporting limit).Refuelled (more.reporting limit) := by
  intro stack m
  unfold Stacked.reporting
  have h := h stack m
  generalize less stack m = first at h
  obtain ⟨result, after⟩ := first
  rcases h with hout | heq
  · obtain rfl : result = .error .outOfFuel := hout
    exact .inl rfl
  · exact .inr (by rw [heq])

theorem guarded (limit : Int) (h : less.Refuelled more) :
    (less.guarded limit).Refuelled (more.guarded limit) := by
  intro stack m
  unfold Stacked.guarded
  split
  · exact h stack m
  · rcases (h.raising (limit * framesPerCall)).reporting limit stack
      { m with guards := m.guards + 1, lastCall := none } with hout | heq
    · exact .inl hout
    · exact .inr (by rw [heq])

end Stacked.Refuelled

end Evaluation

namespace Evaluator

variable (frames : Frames) (ev : Evaluator) (p : Program)

/-- A use from outside. -/
theorem useOn_refuelled {α : Type} {less more : Stacked α} (h : less.Refuelled more) :
    (useOn frames ev less).Refuelled (useOn frames ev more) := .under _ (.guarded _ h)

/-- Evaluation with some fuel, and with one more. -/
structure RefuelledWithin (fuel : Nat) : Prop where
  expression : ∀ e, (evalOn frames ev p fuel e).Refuelled (evalOn frames ev p (fuel + 1) e)
  expressions : ∀ es,
    (evalAllOn frames ev p fuel es).Refuelled (evalAllOn frames ev p (fuel + 1) es)
  turn : ∀ name stop step body, (turnOn frames ev p fuel name stop step body).Refuelled
    (turnOn frames ev p (fuel + 1) name stop step body)
  call : ∀ node name values, (callOn frames ev p fuel node name values).Refuelled
    (callOn frames ev p (fuel + 1) node name values)
  perform : ∀ routine,
    (performOn frames ev p fuel routine).Refuelled (performOn frames ev p (fuel + 1) routine)

/-- One more unit of fuel makes no difference to what has ended. -/
theorem refuelled_within (fuel : Nat) : RefuelledWithin frames ev p fuel := by
  induction fuel with
  | zero =>
    constructor
    · intro e
      cases e <;> exact .outOfFuel _
    · intro es
      cases es <;> exact .outOfFuel _
    · intros
      exact .outOfFuel _
    · intros
      exact .outOfFuel _
    · intro routine
      cases routine <;> exact .outOfFuel _
  | succ fuel within =>
    constructor
    · intro e
      cases e with
      | number value span => exact .same _
      | var name span => exact .same _
      | binary op left right span =>
        exact .under _ ((within.expression left).bind fun x =>
          (within.expression right).bind fun y => .same _)
      | call name arguments span =>
        exact .under _ (.bind (.under _ (within.expressions arguments)) fun values =>
          .under _ (within.call _ name values))
      | cond condition consequent alternative span =>
        apply Stacked.Refuelled.under
        apply (within.expression condition).bind
        intro x
        apply (Stacked.Refuelled.same _).bind
        intro _
        split
        · exact within.expression consequent
        · exact within.expression alternative
      | loop name start stop step body span =>
        exact .under _ ((within.expression start).bind fun x =>
          .inFrame _ (within.turn name stop step body))
    · intro es
      cases es with
      | nil => exact .same _
      | cons e rest =>
        exact (within.expression e).bind fun x => (within.expressions rest).bind fun xs => .same _
    · intro name stop step body
      apply (within.expression body).bind
      intro _
      apply Stacked.Refuelled.bind
      · cases step with
        | none => exact .same _
        | some e => exact within.expression e
      intro size
      apply (within.expression stop).bind
      intro goesOn
      iterate 3
        apply (Stacked.Refuelled.same _).bind
        intro _
      split
      · exact within.turn name stop step body
      · exact .same _
    · intro node name values
      rw [callOn, callOn]
      apply (Stacked.Refuelled.same _).bind
      intro _
      cases ev.target p node name values with
      | fault f => exact .same _
      | body d scope => exact .below (.asBody name d (.inScopes _ (within.expression d.body)))
      | routine routine => exact .under _ (within.perform routine)
      | standard standard => exact .same _
    · intro routine
      cases routine with
      | done answer => cases answer <;> exact .same _
      | call name arguments next =>
        exact .attempt (useOn_refuelled _ _ (.under _ (within.call none name arguments)))
          fun r => within.perform (next r)
      | evaluate e bindings next =>
        exact .attempt (useOn_refuelled _ _ (.under _ (.inScopes _ (within.expression e))))
          fun r => within.perform (next r)

end Evaluator

end Formulary
