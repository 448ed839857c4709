import Formulary.Evaluation.Target
import Formulary.Proofs.Evaluation.Built

/-!
# Calls go where they lead

`call_succ` says that a call goes where its `target` is, to a body only below the limit on calls under
way, so that no proof has to open a call itself.
-/

namespace Formulary.Evaluator

open Evaluation

variable (ev : Evaluator) (p : Program)

/-- A call goes where it leads, to a body only below the limit. -/
theorem call_succ (fuel : Nat) (node : Option Expr) (name : String) (values : List Float) :
    call ev p (fuel + 1) node name values =
      match ev.target p node name values with
      | .fault f => .stop f
      | .body d scope => do
        let s ← Action.state
        if ev.callLimit ≤ s.activeCalls then
          .stop (.failed (.callDepthExceeded name ev.callLimit))
        else Action.asCall (Action.inScopes [scope] (eval ev p fuel d.body))
      | .routine routine => perform ev p fuel routine
      | .standard standard => ev.invoke name standard values := by
  rw [call, target]
  cases p.prototype? name with
  | none => rfl
  | some prototype =>
    by_cases harity : prototype.arity = values.length
    · simp only [if_neg (not_not_intro harity), if_pos harity]
      cases ev.definition? p name with
      | some d => rfl
      | none =>
        simp only [outside]
        cases ev.added.get? name with
        | some routine => rfl
        | none =>
          cases Standard.find? name with
          | none => rfl
          | some standard =>
            by_cases hown : standard.arity = prototype.arity
            · simp only [if_neg (not_not_intro hown), if_pos hown]
            · simp only [if_pos hown, if_neg hown]
              rfl
    · simp only [if_pos harity, if_neg harity]

variable {ev p} {node : Option Expr} {name : String} {values : List Float}

/-- A call that leads to a body is stopped from the limit on, and evaluates the body below it. -/
theorem call_body {d : Definition} {scope : Frame}
    (h : ev.target p node name values = .body d scope) (fuel : Nat) (s : State) :
    call ev p (fuel + 1) node name values s =
      if ev.callLimit ≤ s.activeCalls then
        .fault (.failed (.callDepthExceeded name ev.callLimit)) s
      else Action.asCall (Action.inScopes [scope] (eval ev p fuel d.body)) s := by
  rw [call_succ, h]
  change (if ev.callLimit ≤ s.activeCalls then _ else _ : Action Float) s = _
  split <;> rfl

/-- Where nothing was added and no standard function has the name, there is nothing to lead to. -/
theorem outside_eq_unbound (hadded : ev.added.get? name = none) (hfind : Standard.find? name = none)
    (declared : Nat) :
    ev.outside name declared values = .fault (.failed (.unboundExtern name none)) := by
  rw [outside, hadded]
  simp only [hfind]

/-- A call with as many values as declared leads to the definition that the evaluator has for the
name, or outside. -/
theorem target_of_arity {prototype : Prototype} (declared : p.prototype? name = some prototype)
    (arity : prototype.arity = values.length) :
    ev.target p node name values =
      match ev.definition? p name with
      | some d => .body d (.ofList (prototype.params.zip values))
      | none => ev.outside name prototype.arity values := by
  rw [target, declared]
  exact if_pos arity

/-- A definition in force is led to if it is given as many values as it has parameters. -/
theorem target_definition {rank : Nat} {d : Definition} (hp : p.Built)
    (declared : p.declaration? name = some (.definition d rank))
    (arity : d.prototype.arity = values.length) {added : NameTable (List Float → Routine)}
    {callLimit : Int} {printsResults : Bool} :
    (ofProgram p added callLimit printsResults).target p node name values =
      .body d (.ofList (d.prototype.params.zip values)) := by
  have hprototype : p.prototype? name = some d.prototype := by
    rw [Program.prototype?, declared]
    rfl
  rw [target_of_arity hprototype arity, definition?_ofProgram hp, declared]

/-- A call leads to a body only if the evaluator has the definition for the name. -/
theorem definition?_of_target {d : Definition} {scope : Frame}
    (h : ev.target p node name values = .body d scope) : ev.definition? p name = some d := by
  unfold target outside at h
  grind

/-- Without added functions no call leads to a routine. -/
theorem target_ne_routine (hadded : ev.added = {}) (routine : Routine) :
    ev.target p node name values ≠ .routine routine := by
  intro h
  unfold target outside at h
  rw [hadded] at h
  grind [NameTable.get?_empty]

end Formulary.Evaluator
