import Formulary.Proofs.Evaluation.Built
import Formulary.Proofs.Evaluation.Foreseen
import Formulary.Proofs.Resolution.Errors

/-!
# The resolver foretells what fails to resolve

The evaluator has a stack of scopes that changes as it goes; the resolver has one list of names for
each node. That every variable of the list is in force whenever the evaluator comes to the node is
the invariant (`Covers`), carried through loops and calls by induction on the fuel. So a name that an
evaluation fails to resolve is an error of the resolver, for the same node. Without such errors only
outside functions, the limit on calls and `putchard` can stop a run.
-/

namespace Formulary

open Evaluation

namespace Evaluator

/-- The errors of the body of a definition are errors of the program. -/
theorem mem_errorsOf_of_definition {p : Program} {d : Definition} (hd : d ∈ p.definitions)
    {e : ResolutionError}
    (he : e ∈ Resolution.exprErrors p (some d.name) d.prototype.params d.body) :
    e ∈ Resolution.errorsOf p :=
  List.mem_append_left _ (List.mem_flatMap.mpr ⟨d, hd, he⟩)

/-- The errors of a top-level expression are errors of the program. -/
theorem mem_errorsOf_of_expression {p : Program} {x : Expr} (hx : x ∈ p.expressions)
    {e : ResolutionError} (he : e ∈ Resolution.exprErrors p none [] x) :
    e ∈ Resolution.errorsOf p :=
  List.mem_append_right _ (List.mem_flatMap.mpr ⟨x, hx, he⟩)

/-- The values of arguments are all in the frame of a call. -/
theorem covers_params {params : List String} {values : List Float}
    (h : params.length = values.length) :
    Covers ([NameTable.ofList (params.zip values)].map NameTable.names) params := by
  intro name hname
  refine ⟨_, List.mem_singleton_self _, ?_⟩
  rw [NameTable.mem_names_ofList, List.map_fst_zip (Nat.le_of_eq h)]
  exact hname

/-- An evaluator with the standard functions that has just been made for a program. -/
structure Fresh (ev : Evaluator) (p : Program) : Prop where
  built : p.Built
  known : ev.known = definitionsOf p
  added : ev.added = {}
  invoke : ev.invoke = Standard.invoke

section

variable (ev : Evaluator) (p : Program)

/-- Evaluation with some fuel is foreseen wherever the resolver was. -/
structure ForeseenWithin (fuel : Nat) : Prop where
  expression : ∀ function scope e,
    (∀ x ∈ Resolution.exprErrors p function scope e, x ∈ Resolution.errorsOf p) →
    Action.Foreseen (Resolution.errorsOf p) scope (fun _ => True) (eval ev p fuel e)
  expressions : ∀ function scope es,
    (∀ x ∈ Resolution.exprsErrors p function scope es, x ∈ Resolution.errorsOf p) →
    Action.Foreseen (Resolution.errorsOf p) scope (fun xs => xs.length = es.length)
      (evalAll ev p fuel es)
  turn : ∀ function scope name stop step body,
    (∀ part ∈ stop :: (step.toList ++ [body]),
      ∀ x ∈ Resolution.exprErrors p function (name :: scope) part, x ∈ Resolution.errorsOf p) →
    Action.Foreseen (Resolution.errorsOf p) (name :: scope) (fun _ => True)
      (turn ev p fuel name stop step body)
  call : ∀ function scope node name values,
    (∀ x ∈ Resolution.callErrors p function node name values.length, x ∈ Resolution.errorsOf p) →
    Action.Foreseen (Resolution.errorsOf p) scope (fun _ => True)
      (call ev p fuel (some node) name values)

end

namespace ForeseenWithin

/-- Without fuel nothing goes wrong. -/
theorem zero (ev : Evaluator) (p : Program) : ForeseenWithin ev p 0 := by
  constructor
  · intro _ _ e _
    cases e <;> exact .outOfFuel
  · intro _ _ es _
    cases es <;> exact .outOfFuel
  · intro _ _ _ _ _ _ _
    exact .outOfFuel
  · intro _ _ _ _ _ _
    exact .outOfFuel

section

variable {ev : Evaluator} {p : Program} {fuel : Nat} (within : ForeseenWithin ev p fuel)
  {function : Option String} {scope : List String}

/-- A variable is in force, or the resolver knows that it is not. -/
theorem variable_succ {name : String} {span : Option Span}
    (herrors : ∀ x ∈ Resolution.exprErrors p function scope (.var name span),
      x ∈ Resolution.errorsOf p) :
    Action.Foreseen (Resolution.errorsOf p) scope (fun _ => True)
      (eval ev p (fuel + 1) (.var name span)) := by
  intro s hs
  rw [eval]
  change Outcome.Meets _ _ _ (Action.bind Action.state _ s)
  simp only [Action.bind, Action.state]
  by_cases hname : name ∈ scope
  · have hlookup := lookup?_ne_none (hs name hname)
    cases hx : Action.lookup? name s.scopes with
    | some x => exact ⟨trivial, rfl⟩
    | none => contradiction
  · rw [Resolution.exprErrors, if_neg hname] at herrors
    cases hx : Action.lookup? name s.scopes with
    | some x => exact ⟨trivial, rfl⟩
    | none => exact ⟨_, herrors _ List.mem_cons_self, rfl, rfl, rfl⟩

include within

/-- With more fuel an expression is foreseen. -/
theorem expression_succ {e : Expr}
    (herrors : ∀ x ∈ Resolution.exprErrors p function scope e, x ∈ Resolution.errorsOf p) :
    Action.Foreseen (Resolution.errorsOf p) scope (fun _ => True) (eval ev p (fuel + 1) e) := by
  cases e with
  | number value span => exact .pure trivial
  | var name span => exact variable_succ herrors
  | binary op left right span =>
    rw [Resolution.exprErrors, List.forall_mem_append] at herrors
    apply (within.expression _ _ _ herrors.1).bind
    intro x _
    apply (within.expression _ _ _ herrors.2).bind
    intro y _
    exact .pure trivial
  | call name arguments span =>
    rw [Resolution.exprErrors, List.forall_mem_append] at herrors
    apply (within.expressions _ _ _ herrors.2).bind
    intro values hlength
    rw [← hlength] at herrors
    exact within.call _ _ _ _ _ herrors.1
  | cond condition consequent alternative span =>
    rw [Resolution.exprErrors, List.forall_mem_append, List.forall_mem_append] at herrors
    apply (within.expression _ _ _ herrors.1).bind
    intro x _
    split
    · exact within.expression _ _ _ herrors.2.1
    · exact within.expression _ _ _ herrors.2.2
  | loop name start stop step body span =>
    have hparts : (∀ x ∈ Resolution.exprErrors p function scope start,
          x ∈ Resolution.errorsOf p) ∧
        ∀ part ∈ stop :: (step.toList ++ [body]),
          ∀ x ∈ Resolution.exprErrors p function (name :: scope) part,
            x ∈ Resolution.errorsOf p := by
      cases step <;> simp_all [Resolution.exprErrors, or_imp, forall_and]
    apply (within.expression _ _ _ hparts.1).bind
    intro x _
    have hframe : ∀ other ∈ [name], other ∈ (NameTable.ofList [(name, x)]).names := by
      simp [NameTable.mem_names_ofList]
    exact .inFrame hframe (within.turn _ _ _ _ _ _ hparts.2)

/-- With more fuel expressions are foreseen, and give one value each. -/
theorem expressions_succ {es : List Expr}
    (herrors : ∀ x ∈ Resolution.exprsErrors p function scope es, x ∈ Resolution.errorsOf p) :
    Action.Foreseen (Resolution.errorsOf p) scope (fun xs => xs.length = es.length)
      (evalAll ev p (fuel + 1) es) := by
  cases es with
  | nil => exact .pure rfl
  | cons e rest =>
    rw [Resolution.exprsErrors, List.forall_mem_append] at herrors
    apply (within.expression _ _ _ herrors.1).bind
    intro x _
    apply (within.expressions _ _ _ herrors.2).bind
    intro xs hxs
    exact .pure (by simp [hxs])

/-- With more fuel a turn of a loop is foreseen. -/
theorem turn_succ {name : String} {stop : Expr} {step : Option Expr} {body : Expr}
    (herrors : ∀ part ∈ stop :: (step.toList ++ [body]),
      ∀ x ∈ Resolution.exprErrors p function (name :: scope) part, x ∈ Resolution.errorsOf p) :
    Action.Foreseen (Resolution.errorsOf p) (name :: scope) (fun _ => True)
      (Evaluator.turn ev p (fuel + 1) name stop step body) := by
  have part {e : Expr} (he : e ∈ stop :: (step.toList ++ [body])) :
      Action.Foreseen (Resolution.errorsOf p) (name :: scope) (fun _ => True)
        (eval ev p fuel e) :=
    within.expression _ _ _ (herrors e he)
  have goOn (size : Float) : Action.Foreseen (Resolution.errorsOf p) (name :: scope)
      (fun _ => True) (do
        let goesOn ← eval ev p fuel stop
        Action.increase name size
        if isTrue goesOn then Evaluator.turn ev p fuel name stop step body else return 0.0) := by
    apply (part (by simp)).bind
    intro goesOn _
    apply (Action.Foreseen.increase name size).bind
    intro _ _
    split
    · exact within.turn _ _ _ _ _ _ herrors
    · exact .pure trivial
  apply (part (by simp)).bind
  intro _ _
  cases step with
  | none => exact goOn 1.0
  | some e =>
    apply (part (by simp)).bind
    intro size _
    exact goOn size

/-- The body of a definition is foreseen. -/
theorem body {d : Definition} (hd : d ∈ p.definitions) :
    Action.Foreseen (Resolution.errorsOf p) d.prototype.params (fun _ => True)
      (eval ev p fuel d.body) :=
  within.expression _ _ _ fun _ hx => mem_errorsOf_of_definition hd hx

/-- With more fuel a call is foreseen. -/
theorem call_succ (fresh : ev.Fresh p) {node : Expr} {name : String} {values : List Float}
    (hcall : ∀ e ∈ Resolution.callErrors p function node name values.length,
      e ∈ Resolution.errorsOf p) :
    Action.Foreseen (Resolution.errorsOf p) scope (fun _ => True)
      (Evaluator.call ev p (fuel + 1) (some node) name values) := by
  simp only [Resolution.callErrors, Resolution.target] at hcall
  unfold Evaluator.call
  cases hprototype : p.prototype? name with
  | none =>
    rw [hprototype] at hcall
    exact .unresolved (hcall _ List.mem_cons_self) ⟨rfl, rfl, rfl⟩
  | some prototype =>
    rw [hprototype] at hcall
    simp only
    by_cases harity : prototype.arity = values.length
    · rw [if_neg (not_not_intro harity)]
      cases hdefinition : ev.definition? p name with
      | some d =>
        obtain ⟨hd, hsame⟩ := definition?_of_built fresh.built fresh.known hdefinition
        rw [hprototype] at hsame
        obtain rfl := Option.some.inj hsame
        intro s hs
        change Outcome.Meets _ _ _ (Action.bind Action.state _ s)
        simp only [Action.bind, Action.state]
        split
        · trivial
        · exact (Action.Foreseen.inScopes (covers_params harity) (within.body hd)).asCall s hs
      | none =>
        rw [fresh.added, NameTable.get?_empty]
        cases Standard.find? name with
        | none => exact .failed _
        | some standard =>
          simp only
          split
          · exact .failed _
          · rw [fresh.invoke]
            exact standard.foreseen_invoke name values
    · rw [if_pos harity]
      simp only [if_neg harity] at hcall
      exact .unresolved (hcall _ List.mem_cons_self) ⟨⟨rfl, rfl, rfl⟩, rfl, rfl⟩

end

end ForeseenWithin

section

variable {p : Program} {ev : Evaluator}

/-- Evaluation is foreseen wherever the resolver was, whatever the fuel. -/
theorem foreseen_within (fresh : ev.Fresh p) (fuel : Nat) : ForeseenWithin ev p fuel := by
  induction fuel with
  | zero => exact .zero ev p
  | succ fuel within =>
    constructor
    · intro function scope e herrors
      exact within.expression_succ herrors
    · intro function scope es herrors
      exact within.expressions_succ herrors
    · intro function scope name stop step body herrors
      exact within.turn_succ herrors
    · intro function scope node name values hcall
      exact within.call_succ fresh hcall

/-- Evaluating top-level expressions is foreseen, and gives one value each. -/
theorem foreseen_evaluateAll (fresh : ev.Fresh p) (fuel : Nat) (es : List Expr)
    (hes : ∀ e ∈ es, e ∈ p.expressions) :
    Action.Foreseen (Resolution.errorsOf p) [] (fun xs => xs.length = es.length)
      (evaluateAll ev p fuel es) := by
  induction es with
  | nil => exact .pure rfl
  | cons e rest ih =>
    obtain ⟨he, hrest⟩ := List.forall_mem_cons.mp hes
    have hvalue : Action.Foreseen (Resolution.errorsOf p) [] (fun _ => True)
        (evaluate ev p fuel e) := by
      have hcovers : Covers ([({} : Frame)].map NameTable.names) [] := by
        intro name hname
        contradiction
      apply Action.Foreseen.inScopes hcovers
      apply (foreseen_within fresh fuel).expression none [] e
      intro x hx
      exact mem_errorsOf_of_expression he hx
    have hmore (x : Float) : Action.Foreseen (Resolution.errorsOf p) []
        (fun xs => xs.length = (e :: rest).length) (do
          let xs ← evaluateAll ev p fuel rest
          return x :: xs) := by
      apply (ih hrest).bind
      intro xs hxs
      exact .pure (by simp [hxs])
    have hwrite (x : Float) :
        Action.Foreseen (Resolution.errorsOf p) [] (fun _ => True) (Standard.writeNumber x) :=
      .write _ trivial
    apply hvalue.bind
    intro x _
    split
    · apply (hwrite x).bind
      intro _ _
      exact hmore x
    · exact hmore x

end

end Evaluator

end Formulary
