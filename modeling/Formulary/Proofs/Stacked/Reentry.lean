import Formulary.Proofs.Stacked.Meaning

/-!
# Evaluation inside evaluation, on a stack

An added routine may have calls and formulas evaluated while an evaluation is under way, and these
may come to routines again. Such an evaluation stands apart from the one that it interrupts. Apart or
not, its calls count with all the others, and the limit is one for all of them together; the stack is
one for all of them as well, and may run out before the limit is reached.
-/

namespace Formulary.Evaluator

open Evaluation

/-- A call that leads to a body begins it below the limit, and is refused from there on, unless the
stack runs out before. -/
theorem callOn_body (frames : Frames) {ev : Evaluator} (hinvoke : ev.invoke = Standard.invoke)
    {p : Program} {node : Option Expr} {name : String} {values : List Float} {d : Definition}
    {scope : Frame} (h : ev.target p node name values = .body d scope) (fuel : Nat) (stack : Stack)
    {m : Machine} (hguards : m.guards ≠ 0) :
    ∃ e, (callOn frames ev p (fuel + 1) node name values).Has stack m e ∧
      (e.result = .error (.stack .exhausted) ∧ e.events = [] ∨
        ev.callLimit ≤ m.activeCalls ∧ e.events = [.refused d] ∧
          e.result = .error (.fault (.failed (.callDepthExceeded name ev.callLimit))) ∨
        m.activeCalls < ev.callLimit ∧ ∃ more, e.events = .begins d :: more) := by
  rw [callOn, h]
  cases hneed : stack.holding (frames .declaration) with
  | none => exact ⟨_, .need_exhausted hneed, .inl ⟨rfl, rfl⟩⟩
  | some deeper =>
    by_cases hlimit : ev.callLimit ≤ m.activeCalls
    · obtain ⟨e, he, _, hevents⟩ := refuseOn_has frames ev name d stack m
      refine ⟨e, .need_bind hneed (.below_otherwise hlimit he), ?_⟩
      exact hevents.imp_right fun hrefused => .inl ⟨hlimit, hrefused.2, hrefused.1⟩
    · obtain ⟨e, he⟩ := evalOn_effective frames hinvoke p fuel d.body stack
        { m with activeCalls := m.activeCalls + 1, scopes := [scope] } hguards
      have hbody := Stacked.Has.inScopes (m := { m with activeCalls := m.activeCalls + 1 }) he
      exact ⟨_, .need_bind hneed (.below hlimit hbody.asBody),
        .inr (.inr ⟨Int.not_le.mp hlimit, _, rfl⟩)⟩

/-- In a use from outside the events obey the limit. -/
theorem Use.performOn_obeys {frames : Frames} {ev : Evaluator}
    (hinvoke : ev.invoke = Standard.invoke) (p : Program) (use : Use) (fuel : Nat) (stack : Stack)
    {m : Machine} (hm : m.guards = 0) (hidle : m.activeCalls = 0) :
    ∃ result text last happened,
      use.performOn frames ev p fuel stack m = (result, m.used text last happened) ∧
      Obeys ev.callLimit happened := by
  rw [use.performOn_eq]
  have hobeys := use.obeys ev hinvoke p fuel (s := m.toState) hidle
  rcases useOn_cut (within_follows frames hinvoke p use) (fun fuel => use.within_apart hinvoke fuel)
    hm fuel stack with ⟨why, last, huse, _⟩ | ⟨e, huse, hactive, hcut, _⟩
  · exact ⟨_, "", last, [], huse, hobeys.of_append (a := [])⟩
  · exact ⟨_, e.text, e.last, e.events, huse, hcut.obeys hactive hobeys⟩

end Formulary.Evaluator
