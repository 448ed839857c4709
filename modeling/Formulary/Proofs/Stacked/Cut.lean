import Formulary.Proofs.Stacked.Unlimited

/-!
# Evaluation that the stack cuts short

An evaluation on a stack does what the evaluation without a stack does, with the same events, unless
the stack runs out on the way. Then its text comes first in the text of the other one, and its events
come first in those of the other one, but for the ends of the bodies that were under way. This is
`Stacked.Cuts`, which follows from the comparison with a stack of which nothing is taken. A limit that
the events of an evaluation obey is therefore obeyed on a stack too.
-/

namespace Formulary

open Evaluation

namespace Evaluation

variable {α β : Type} {limit : Int} {events : List Event}

/-! ### Ends of bodies -/

@[simp] theorem active_replicate_ends (k : Nat) : active (List.replicate k .ends) = -k := by
  induction k with
  | zero => rfl
  | succ k ih =>
    rw [List.replicate_succ, active_cons, ih]
    simp only [Event.change]
    omega

namespace Obeys

/-- What happens first obeys the limit. -/
theorem of_append {a b : List Event} (h : Obeys limit (a ++ b)) : Obeys limit a := by
  constructor
  · intro before after heq
    exact h.nested before (after ++ b) (by rw [heq, List.append_assoc])
  · intro before after heq
    exact h.bound before (after ++ b) (by rw [heq, List.append_assoc])
  · intro before d after heq
    exact h.begun before d (after ++ b) (by rw [heq, List.append_assoc]; rfl)
  · intro before d after heq
    exact h.refused before d (after ++ b) (by rw [heq, List.append_assoc]; rfl)

/-- Where a body is active it may end. -/
theorem append_ends (h : Obeys limit events) (hactive : 0 < active events) :
    Obeys limit (events ++ [.ends]) := by
  have hbound := h.bound events [] (List.append_nil _).symm
  have hsplit {a b : List Event} (heq : events ++ [.ends] = a ++ b) :
      a = events ++ [.ends] ∧ b = [] ∨ ∃ b', events = a ++ b' ∧ b = b' ++ [.ends] := by
    rcases List.eq_nil_or_concat b with rfl | ⟨b', e, rfl⟩
    · exact .inl ⟨by rw [heq, List.append_nil], rfl⟩
    · rw [List.concat_eq_append, ← List.append_assoc] at heq
      obtain ⟨hevents, hlast⟩ := List.append_inj' heq rfl
      exact .inr ⟨b', hevents, by rw [List.concat_eq_append, hlast]⟩
  constructor
  · intro a b heq
    rcases hsplit heq with ⟨rfl, _⟩ | ⟨b', heq', _⟩
    · simp only [active_append, active_cons, active_nil, Event.change]
      omega
    · exact h.nested a b' heq'
  · intro a b heq
    rcases hsplit heq with ⟨rfl, _⟩ | ⟨b', heq', _⟩
    · simp only [active_append, active_cons, active_nil, Event.change]
      omega
    · exact h.bound a b' heq'
  · intro a d b heq
    rcases hsplit heq with ⟨_, hnil⟩ | ⟨b', heq', hlast⟩
    · cases hnil
    · cases b' with
      | nil => cases hlast
      | cons e b' =>
        cases hlast
        exact h.begun a d b' heq'
  · intro a d b heq
    rcases hsplit heq with ⟨_, hnil⟩ | ⟨b', heq', hlast⟩
    · cases hnil
    · cases b' with
      | nil => cases hlast
      | cons e b' =>
        cases hlast
        exact h.refused a d b' heq'

/-- All bodies that are active may end. -/
theorem append_replicate (h : Obeys limit events) {k : Nat} (hk : k ≤ active events) :
    Obeys limit (events ++ List.replicate k .ends) := by
  induction k with
  | zero => rwa [List.replicate_zero, List.append_nil]
  | succ k ih =>
    rw [List.replicate_succ', ← List.append_assoc]
    apply (ih (by omega)).append_ends
    rw [active_append, active_replicate_ends]
    omega

end Obeys

/-! ### Cuts -/

/-- An effect, where an action with an outcome and events is carried out on a stack. -/
inductive Cut (m : Machine) (o : Outcome α) (events : List Event) (e : Effect α) : Prop
  | ended {r after} (outcome : o = Outcome.ended r after) (result : e.result = r.mapError .fault)
    (scopes : after.scopes = e.scopes) (output : after.output = m.output ++ e.text)
    (happened : e.events = events)
  | outOfFuel {k} (outcome : o = .outOfFuel) (result : e.result = .error .outOfFuel)
    (happened : e.events = events ++ List.replicate k .ends)
  | exhausted {before rest k j} (result : e.result = .error (.stack .exhausted))
    (output : ∀ r after, o = Outcome.ended r after →
      ∃ more, after.output = m.output ++ e.text ++ more)
    (happened : e.events = before ++ List.replicate k .ends)
    (goesOn : events ++ List.replicate j .ends = before ++ rest)
    (closed : active (events ++ List.replicate j .ends) = 0)

/-- The events on a stack obey every limit that the events without one obey. -/
theorem Cut.obeys {m : Machine} {o : Outcome α} {e : Effect α} (h : Cut m o events e)
    (hactive : active e.events = 0) (hobeys : Obeys limit events) : Obeys limit e.events := by
  have hclosed {before : List Event} {k : Nat} (hbefore : Obeys limit before)
      (hzero : active (before ++ List.replicate k .ends) = 0) :
      Obeys limit (before ++ List.replicate k .ends) := by
    apply hbefore.append_replicate
    rw [active_append, active_replicate_ends] at hzero
    omega
  cases h with
  | ended _ _ _ _ happened => rwa [happened]
  | outOfFuel _ _ happened =>
    rw [happened] at hactive ⊢
    exact hclosed hobeys hactive
  | exhausted _ _ happened goesOn closed =>
    rw [happened] at hactive ⊢
    exact hclosed (goesOn ▸ hclosed hobeys closed).of_append hactive

/-- Only the text that was written before matters to a cut. -/
theorem Cut.congr {m m' : Machine} {o : Outcome α} {e : Effect α} (h : Cut m o events e)
    (hm : m'.output = m.output) : Cut m' o events e := by
  cases h with
  | ended outcome result scopes output happened =>
    exact .ended outcome result scopes (by rw [output, hm]) happened
  | outOfFuel outcome result happened => exact .outOfFuel outcome result happened
  | exhausted result output happened goesOn closed =>
    exact .exhausted result (by rwa [hm]) happened goesOn closed

/-- What is cut somewhere may be cut at once. -/
theorem Cut.at_once {m : Machine} {o : Outcome α} {e : Effect α} (h : Cut m o events e)
    (hactive : active e.events = 0) (m' : Machine) :
    Cut m o events (.only (.error (.stack .exhausted)) m') := by
  have hnothing (j : Nat) (closed : active (events ++ List.replicate j .ends) = 0)
      (output : ∀ r after, o = Outcome.ended r after → ∃ more, after.output = m.output ++ more) :
      Cut m o events (.only (.error (.stack .exhausted)) m') := by
    refine .exhausted (k := 0) rfl ?_ (List.append_nil []).symm (List.nil_append _).symm closed
    simpa [Effect.only] using output
  cases h with
  | @ended r after outcome _ _ output happened =>
    refine hnothing 0 (by simpa [← happened] using hactive) fun r' after' hended => ?_
    obtain ⟨_, rfl⟩ := Outcome.ended_inj (outcome.symm.trans hended)
    exact ⟨e.text, output⟩
  | outOfFuel outcome _ happened =>
    refine hnothing _ (happened ▸ hactive) fun r after hended => ?_
    rw [outcome] at hended
    exact absurd hended (Outcome.outOfFuel_ne_ended r after)
  | exhausted _ output _ _ closed =>
    refine hnothing _ closed fun r after hended => ?_
    obtain ⟨more, hmore⟩ := output r after hended
    exact ⟨e.text ++ more, by rw [hmore, String.append_assoc]⟩

/-- An action on a stack is cut, if at all, out of an action with its events. -/
def Stacked.Cuts (q : Stacked α) (t : Traced α) : Prop :=
  ∀ stack (m : Machine), m.guards ≠ 0 → ∃ e, q.Has stack m e ∧ active e.events = 0 ∧
    Cut m (t.action m.toState) (t.events m.toState) e

/-- An effect that comes to what an action with its events comes to, without the stack. -/
theorem Erased.cut {m : Machine} {e : Effect α} {o : Outcome α}
    (h : Erased m (e.result, e.after m) o events) :
    Cut m o events e ∧ e.result ≠ .error (.stack .exhausted) := by
  generalize hpair : (e.result, e.after m) = pair at h
  cases h with
  | ended r after lastCall events =>
    obtain ⟨hresult, hafter⟩ := Prod.mk.inj hpair
    have hevents := congrArg Machine.events hafter
    constructor
    · refine @Cut.ended _ _ _ _ _ r after rfl hresult ?_ ?_ ?_
      · exact (congrArg (·.scopes) hafter).symm
      · exact (congrArg (·.output) hafter).symm
      · simpa [Effect.after] using hevents
    · rw [hresult]
      exact mapError_fault_ne_stack r .exhausted
  | @outOfFuel last events k hevents =>
    obtain ⟨hresult, rfl⟩ := Prod.mk.inj hpair
    constructor
    · refine .outOfFuel (k := k) rfl hresult ?_
      exact List.reverse_inj.mp (List.append_cancel_right hevents)
    · simp [hresult]

/-- What takes nothing of the stack, and comes to an action with its events, says where it is cut. -/
theorem Stacked.Cuts.of_erases {q free : Stacked α} {t : Traced α}
    (hraised : q.Raised (· = .stack .exhausted) free) (herases : free.Erases t) : q.Cuts t := by
  intro stack m hguards
  obtain ⟨e, e', hlow, hhigh, follows, balanced, balanced'⟩ :=
    hraised stack stack (Int.le_refl _) m hguards
  have herased := herases stack m hguards
  rw [hhigh.eq] at herased
  obtain ⟨hcut, hnot⟩ := herased.cut
  refine ⟨e, hlow, balanced, ?_⟩
  cases follows with
  | same => exact hcut
  | stopped halted stops precedes =>
    obtain ⟨more, hmore⟩ := precedes.text
    obtain ⟨before, rest, k, hlow, hhigh⟩ := precedes.events stops
    rw [stops] at halted
    cases hcut with
    | ended outcome _ _ output happened =>
      refine @Cut.exhausted _ _ _ _ _ before rest k 0 halted ?_ hlow ?_ ?_
      · intro r last hended
        obtain ⟨_, rfl⟩ := Outcome.ended_inj (outcome.symm.trans hended)
        exact ⟨more, by rw [output, hmore, String.append_assoc]⟩
      · rw [← happened, List.replicate_zero, List.append_nil, hhigh]
      · rw [← happened, List.replicate_zero, List.append_nil, balanced']
    | outOfFuel outcome _ happened =>
      refine .exhausted halted ?_ hlow (happened.symm.trans hhigh) (happened ▸ balanced')
      intro r last hended
      rw [outcome] at hended
      exact absurd hended (Outcome.outOfFuel_ne_ended r last)
    | exhausted result => exact absurd result hnot

end Evaluation

namespace Evaluator

section

variable (frames : Frames) {ev : Evaluator} (hinvoke : ev.invoke = Standard.invoke) (p : Program)
  (fuel : Nat)

include hinvoke

/-- An evaluator that takes nothing of the stack. -/
theorem raises_none : Raises (· = .stack .exhausted) frames .none ev ev where
  frames _ := Nat.zero_le _
  exhausted := rfl
  known := rfl
  added := rfl
  invoke := ⟨hinvoke, hinvoke⟩
  prints := rfl
  limit := .inl rfl
  routines := .inl fun _ h => nomatch h

theorem evalOn_cuts (e : Expr) : (evalOn frames ev p fuel e).Cuts (evalTraced ev p fuel e) :=
  .of_erases ((raised_within (raises_none frames hinvoke) fuel).expression e)
    ((unlimited_within ev p fuel).expression e)

/-- Arguments, with the frames that they take. -/
theorem argumentsOn_cuts (es : List Expr) :
    (Stacked.under (frames .arguments) (evalAllOn frames ev p fuel es)).Cuts
      (evalAllTraced ev p fuel es) :=
  .of_erases ((raises_none frames hinvoke).under .arguments
    ((raised_within (raises_none frames hinvoke) fuel).expressions es))
    (.under ((unlimited_within ev p fuel).expressions es))

/-- A call, with the frames that it takes. -/
theorem calledOn_cuts (node : Option Expr) (name : String) (values : List Float) :
    (Stacked.under (frames .call) (callOn frames ev p fuel node name values)).Cuts
      (callTraced ev p fuel node name values) :=
  .of_erases ((raises_none frames hinvoke).under .call
    ((raised_within (raises_none frames hinvoke) fuel).call node name values))
    (.under ((unlimited_within ev p fuel).call node name values))

end

end Evaluator

end Formulary
