import Formulary.Proofs.Stacked.Headroom

/-!
# Calls and routines stand apart

A call runs the body of a definition in scopes of its own, and an added routine has calls and
expressions evaluated in scopes of their own. An action is `Apart` from the evaluation in which it
stands if it has the same effect whatever scopes are in force, and leaves them as they are. That holds
of calls and routines whether they end with a value, with a fault, or because the stack has run out.
-/

namespace Formulary

open Evaluation

namespace Evaluation

variable {α β : Type}

/-- The same effect, which leaves other scopes in force. -/
def Effect.leaving (e : Effect α) (scopes : List Frame) : Effect α := { e with scopes }

/-- Within a use an action has the same effect whatever scopes are in force, and leaves them as they
are. -/
def Stacked.Apart (q : Stacked α) : Prop :=
  ∀ stack (m : Machine), m.guards ≠ 0 → ∃ e : Effect α, ∀ scopes : List Frame,
    q.Has stack { m with scopes } (e.leaving scopes)

/-- An action has an effect on every machine. -/
def Stacked.Effective (q : Stacked α) : Prop :=
  ∀ stack (m : Machine), m.guards ≠ 0 → ∃ e, q.Has stack m e

namespace Stacked.Apart

variable {q q' : Stacked α} {f : α → Stacked β}

theorem effective (h : q.Apart) : q.Effective := by
  intro stack m hguards
  obtain ⟨e, he⟩ := h stack m hguards
  exact ⟨_, he m.scopes⟩

/-- The scopes are left as they are. -/
theorem scopes_eq (h : q.Apart) {stack : Stack} {m : Machine} (hguards : m.guards ≠ 0)
    {e : Effect α} (he : q.Has stack m e) : e.scopes = m.scopes := by
  obtain ⟨e', he'⟩ := h stack m hguards
  rw [he.unique (he' m.scopes)]
  rfl

/-- An action that leaves nothing behind but text and events. -/
theorem of_has (result : Except Halt α) (text : String) (events : List Event)
    (h : ∀ stack m, q.Has stack m ⟨result, m.scopes, none, text, events⟩) : q.Apart :=
  fun stack m _ => ⟨⟨result, m.scopes, none, text, events⟩, fun scopes => h stack { m with scopes }⟩

theorem pure (x : α) : (Pure.pure x : Stacked α).Apart :=
  of_has (.ok x) "" [] fun _ _ => .of_only fun _ => rfl

theorem halt (why : Halt) : (Stacked.halt why : Stacked α).Apart :=
  of_has (.error why) "" [] fun _ _ => .of_only fun _ => rfl

theorem refuse (d : Definition) (e : Fault) : (Stacked.refuse d e : Stacked α).Apart :=
  of_has (.error (.fault e)) "" [.refused d] fun _ _ => .refuse d e

/-- An action that reports. -/
theorem lift_report {a : Action α} {r : Except Fault α} {out : String}
    (h : ∀ s, a s = Outcome.report s out r) : (Stacked.lift a).Apart := by
  refine of_has (r.mapError .fault) out [] fun stack m written lastCall log => ?_
  simp only [Stacked.lift, h]
  cases r <;> rfl

theorem under (frames : Nat) (h : q.Apart) : (q.under frames).Apart := by
  intro stack m hguards
  cases hdeeper : stack.holding frames with
  | none => exact ⟨.only (.error (.stack .exhausted)) m, fun _ => .under_exhausted hdeeper⟩
  | some deeper =>
    obtain ⟨e, he⟩ := h deeper m hguards
    exact ⟨e, fun scopes => .under hdeeper (he scopes)⟩

/-- A helper. -/
theorem need (frames : Nat) : (Stacked.need frames).Apart := under frames (pure ())

/-- One action after another. -/
theorem bind (h : q.Apart) (hf : ∀ x, (f x).Apart) : (q >>= f).Apart := by
  intro stack m hguards
  obtain ⟨e, he⟩ := h stack m hguards
  cases hresult : e.result with
  | error why => exact ⟨e.halted why, fun scopes => (he scopes).bind_halted hresult⟩
  | ok x =>
    obtain ⟨e', he'⟩ := hf x stack (e.after m) hguards
    exact ⟨e.append e', fun scopes => (he scopes).bind hresult (he' scopes)⟩

/-- What goes on after a value as after a fault. -/
theorem attempt {next : Except Fault α → Stacked β} (h : q.Apart) (hnext : ∀ r, (next r).Apart) :
    (q.attempt next).Apart := by
  intro stack m hguards
  obtain ⟨e, he⟩ := h stack m hguards
  cases hresult : e.result with
  | ok x =>
    obtain ⟨e', he'⟩ := hnext (.ok x) stack (e.after m) hguards
    exact ⟨e.append e', fun scopes => (he scopes).attempt_value hresult (he' scopes)⟩
  | error why =>
    cases why with
    | fault g =>
      obtain ⟨e', he'⟩ := hnext (.error g) stack (e.after m) hguards
      exact ⟨e.append e', fun scopes => (he scopes).attempt_fault hresult (he' scopes)⟩
    | stack why =>
      exact ⟨e.halted (.stack why), fun scopes =>
        (he scopes).attempt_halted _ hresult fun _ h => nomatch h⟩
    | outOfFuel =>
      exact ⟨e.halted .outOfFuel, fun scopes =>
        (he scopes).attempt_halted _ hresult fun _ h => nomatch h⟩

/-- In scopes of its own every action stands apart. -/
theorem inScopes (own : List Frame) (h : q.Effective) : (q.inScopes own).Apart := by
  intro stack m hguards
  obtain ⟨e, he⟩ := h stack { m with scopes := own } hguards
  refine ⟨e, fun scopes => ?_⟩
  exact Stacked.Has.inScopes (m := { m with scopes }) he

/-- So does the body of a definition. -/
theorem asBody (name : String) (d : Definition) (h : q.Apart) : (q.asBody name d).Apart := by
  intro stack m hguards
  obtain ⟨e, he⟩ := h stack { m with activeCalls := m.activeCalls + 1 } hguards
  refine ⟨e.asBody name d, fun scopes => ?_⟩
  exact Stacked.Has.asBody (m := { m with scopes }) (he scopes)

/-- The number of calls under way may decide between two actions. -/
theorem below {limit : Int} (h : q.Apart) (h' : q'.Apart) : (q.below limit q').Apart := by
  intro stack m hguards
  by_cases hlimit : limit ≤ m.activeCalls
  · obtain ⟨e, he⟩ := h' stack m hguards
    exact ⟨e, fun scopes => .below_otherwise hlimit (he scopes)⟩
  · obtain ⟨e, he⟩ := h stack m hguards
    exact ⟨e, fun scopes => .below hlimit (he scopes)⟩

/-- Within a use no headroom is asked for. -/
theorem guarded (limit : Int) (h : q.Apart) : (q.guarded limit).Apart := by
  intro stack m hguards
  obtain ⟨e, he⟩ := h stack m hguards
  exact ⟨e, fun scopes => .guarded limit hguards (he scopes)⟩

end Stacked.Apart

end Evaluation

namespace Evaluator

variable (frames : Frames) {ev : Evaluator}

/-- A use within a use stands apart if what it does stands apart. -/
theorem useOn_apart {α : Type} {q : Stacked α} (h : q.Apart) : (useOn frames ev q).Apart :=
  .under _ (.guarded _ h)

/-- A fault stands apart. -/
theorem raise_apart {α : Type} (f : Fault) : (raise frames f : Stacked α).Apart :=
  .bind (.need _) fun _ => .halt _

section

variable (hinvoke : ev.invoke = Standard.invoke) (p : Program) (fuel : Nat)

include hinvoke

/-- An evaluator is as good as itself. -/
theorem raises_self : Raises (· = .stack .exhausted) frames frames ev ev where
  frames _ := Nat.le_refl _
  exhausted := rfl
  known := rfl
  added := rfl
  invoke := ⟨hinvoke, hinvoke⟩
  prints := rfl
  limit := .inl rfl
  routines := .inl fun _ h => nomatch h

/-- Every expression has an effect. -/
theorem evalOn_effective (e : Expr) : (evalOn frames ev p fuel e).Effective := by
  intro stack m hguards
  obtain ⟨e, _, he, _⟩ := (raised_within (raises_self frames hinvoke) fuel).expression e stack stack
    (Int.le_refl _) m hguards
  exact ⟨e, he⟩

/-- Calls and routines stand apart, whatever the fuel. -/
theorem apart_within :
    (∀ node name values, (callOn frames ev p fuel node name values).Apart) ∧
      ∀ routine, (performOn frames ev p fuel routine).Apart := by
  induction fuel with
  | zero =>
    constructor
    · intro node name values
      exact .halt _
    · intro routine
      cases routine <;> exact .halt _
  | succ fuel within =>
    have hexpression := evalOn_effective frames hinvoke p fuel
    constructor
    · intro node name values
      rw [callOn]
      apply (Stacked.Apart.need _).bind
      intro _
      cases ev.target p node name values with
      | fault f => exact raise_apart frames f
      | body d scope =>
        exact .below (.asBody name d (.inScopes [scope] (hexpression d.body)))
          (.bind (.need _) fun _ => .refuse d _)
      | routine routine => exact .under _ (within.2 routine)
      | standard standard =>
        apply (Stacked.Apart.need _).bind
        intro _
        rw [hinvoke]
        exact .lift_report (standard.invoke_eq_report name values)
    · intro routine
      cases routine with
      | done answer => cases answer <;> first | exact .pure _ | exact .halt _
      | call name arguments next =>
        exact .attempt (useOn_apart frames (.under _ (within.1 none name arguments)))
          fun r => within.2 (next r)
      | evaluate e bindings next =>
        exact .attempt (useOn_apart frames (.under _ (.inScopes _ (hexpression e))))
          fun r => within.2 (next r)

end

end Evaluator

end Formulary
