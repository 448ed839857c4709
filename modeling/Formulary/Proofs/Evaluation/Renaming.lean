import Formulary.Proofs.Evaluation.Alpha
import Formulary.Proofs.Evaluation.Latest
import Formulary.Proofs.Grammar.Renaming
import Formulary.Proofs.Source.WellFormed

/-!
# Runs and the names of bound variables

The names of parameters and of the variables of loops do not matter to a program. Statements that
differ in them declare the same names with as many parameters, put definitions in force that differ in
them, and list formulas that do; spans do not matter to that. So the resolution errors are the same and
the runs come to the same. Renaming one parameter, or the variable of one loop, to a name that was not
there is such a difference.
-/

namespace Formulary

open Evaluation

namespace Evaluation

/-- Where one action ends with some fuel, another one ends in the same state with some fuel, with the
same value or with a fault that is the same but for its place. -/
def EndsAlong {α : Type} (a b : Nat → Action α) (s : State) : Prop :=
  ∀ r after, (∃ fuel, a fuel s = .ended r after) →
    ∃ r', SameResult r r' ∧ ∃ fuel, b fuel s = .ended r' after

/-- What the relations lead from one to the other, what is computed does too. -/
theorem Computes.endsAlong {α : Type} {a b : Nat → Action α} {s : State}
    {P Q : Except Fault α → String → Prop} (ha : Computes a s P) (hb : Computes b s Q)
    (h : ∀ r out, P r out → ∃ r', Q r' out ∧ SameResult r r') : EndsAlong a b s := by
  intro r after hended
  obtain ⟨out, rfl, hP⟩ := (ha.ended_iff r after).mp hended
  obtain ⟨r', hQ, hr⟩ := h r out hP
  exact ⟨r', hr, (hb.ended_iff r' _).mpr ⟨out, rfl, hQ⟩⟩

/-- Expressions that are related come one by one to the same, if each comes to what the other does. -/
theorem OneByOne.along {P Q : Expr → Except Fault Float → String → Prop} {R : Expr → Expr → Prop}
    {printsResults : Bool} {es es' : List Expr} {r : Except Fault (List Float)} {out : String}
    (h : OneByOne P printsResults es r out) (hes : List.Forall₂ R es es')
    (hPQ : ∀ e e', R e e' → ∀ r out, P e r out → ∃ r', Q e' r' out ∧ SameResult r r') :
    ∃ r', OneByOne Q printsResults es' r' out ∧ SameResult r r' := by
  induction h generalizing es' with
  | nil =>
    cases hes
    exact ⟨_, .nil, .ok _⟩
  | fault first =>
    cases hes with
    | cons head tail =>
      obtain ⟨_, hfirst, hr⟩ := hPQ _ _ head _ _ first
      cases hr with
      | error hf => exact ⟨_, .fault hfirst, .error hf⟩
  | next first _ ih =>
    cases hes with
    | cons head tail =>
      obtain ⟨_, hfirst, hr⟩ := hPQ _ _ head _ _ first
      cases hr
      obtain ⟨_, hothers, hr⟩ := ih tail
      exact ⟨_, .next hfirst hothers, hr.map _⟩

end Evaluation

/-! ### Programs -/

namespace Expr

mutual

/-- Spans do not matter to the relation. -/
theorem Alpha.respan {pairs : Pairing} {e e₁ e₂ : Expr} (h : Alpha pairs e e₁)
    (hspans : e₁.Alike (fun _ => True) e₂) : Alpha pairs e e₂ := by
  match h with
  | .number =>
    obtain ⟨_, rfl⟩ := hspans.number
    exact .number
  | .var paired =>
    obtain ⟨_, rfl⟩ := hspans.var
    exact .var paired
  | .binary left right =>
    obtain ⟨_, _, _, rfl, hleft, hright⟩ := hspans.binary
    exact .binary (left.respan hleft) (right.respan hright)
  | .call arguments =>
    obtain ⟨_, _, _, rfl, harguments⟩ := hspans.call
    exact .call (arguments.respan harguments)
  | .cond condition consequent alternative =>
    obtain ⟨_, _, _, _, rfl, hcondition, hconsequent, halternative⟩ := hspans.cond
    exact .cond (condition.respan hcondition) (consequent.respan hconsequent)
      (alternative.respan halternative)
  | .loop start stop step body =>
    obtain ⟨_, _, _, _, _, rfl, hstart, hstop, hstep, hbody⟩ := hspans.loop
    refine .loop (start.respan hstart) (stop.respan hstop) (step.respan ?_) (body.respan hbody)
    cases hstep with
    | none => exact .nil
    | some hstep => exact .cons hstep .nil

/-- Nor do those of lists. -/
theorem AlphaAll.respan {pairs : Pairing} {es es₁ es₂ : List Expr} (h : AlphaAll pairs es es₁)
    (hspans : List.Forall₂ (Expr.Alike fun _ => True) es₁ es₂) : AlphaAll pairs es es₂ := by
  match h, hspans with
  | .nil, .nil => exact .nil
  | .cons head tail, .cons hhead htail => exact .cons (head.respan hhead) (tail.respan htail)

end

/-- A tree that is related to one is related to every other that differs from it in spans only. -/
theorem Alpha.of_bare_eq {pairs : Pairing} {e e₁ e₂ : Expr} (h : Alpha pairs e e₁)
    (hbare : e₁.bare = e₂.bare) : Alpha pairs e e₂ :=
  h.respan ⟨hbare, fun _ _ => trivial⟩

end Expr

/-- A statement that is related to one is related to every other that differs from it in spans only. -/
theorem Statement.Alpha.of_bare_eq {s s₁ s₂ : Statement} (h : s.Alpha s₁)
    (hbare : s₁.bare = s₂.bare) : s.Alpha s₂ := by
  cases h with
  | foreign name arity =>
    cases s₂ with
    | foreign q₂ =>
      obtain ⟨hname, hparams⟩ := Prototype.eq_of_bare_eq (Statement.foreign.inj hbare)
      exact .foreign (name.trans hname) (arity.trans (congrArg List.length hparams))
    | definition => cases hbare
    | expression => cases hbare
  | definition h =>
    cases s₂ with
    | foreign => cases hbare
    | definition d₂ =>
      obtain ⟨hprototype, hbody⟩ := Definition.mk.inj (Statement.definition.inj hbare)
      obtain ⟨hname, hparams⟩ := Prototype.eq_of_bare_eq hprototype
      exact .definition
        { name := h.name.trans hname
          arity := h.arity.trans (congrArg List.length hparams)
          body := (hparams ▸ h.body).of_bare_eq hbody }
    | expression => cases hbare
  | expression h =>
    cases s₂ with
    | foreign => cases hbare
    | definition => cases hbare
    | expression e₂ => exact .expression (h.of_bare_eq (Statement.expression.inj hbare))

/-- Statements that are related to some are related to others that differ from these in spans only. -/
theorem Statement.Alpha.list_of_bare_eq {ss ss₁ ss₂ : List Statement}
    (h : List.Forall₂ Statement.Alpha ss ss₁)
    (hbare : ss₁.map Statement.bare = ss₂.map Statement.bare) :
    List.Forall₂ Statement.Alpha ss ss₂ := by
  induction h generalizing ss₂ with
  | nil =>
    rw [List.map_nil, eq_comm, List.map_eq_nil_iff] at hbare
    subst hbare
    exact .nil
  | cons head _ ih =>
    cases ss₂ with
    | nil => contradiction
    | cons s₂ rest₂ =>
      obtain ⟨hhead, htail⟩ := List.cons.inj hbare
      exact .cons (head.of_bare_eq hhead) (ih htail)

/-- Statements that differ in bound variables declare the same name. -/
theorem Statement.Alpha.name_eq {s s' : Statement} (h : s.Alpha s') :
    s.prototype?.map Prototype.name = s'.prototype?.map Prototype.name := by
  cases h with
  | foreign name _ => exact congrArg some name
  | definition h => exact congrArg some h.name
  | expression => rfl

/-- Lists of such statements declare the same names. -/
theorem Statement.Alpha.names_eq {ss ss' : List Statement} (h : List.Forall₂ Statement.Alpha ss ss') :
    (ss.filterMap fun s => s.prototype?.map Prototype.name) =
      ss'.filterMap fun s => s.prototype?.map Prototype.name := by
  induction h with
  | nil => rfl
  | cons head _ ih => rw [List.filterMap_cons, List.filterMap_cons, head.name_eq, ih]

/-- A given name is declared by both or by neither. -/
theorem Statement.Alpha.declares_iff {s s' : Statement} (h : s.Alpha s') (name : String) :
    s.declares name = true ↔ s'.declares name = true := by
  cases h with
  | foreign hname _ => simp only [Statement.declares, hname]
  | definition h => simp only [Statement.declares, h.name]
  | expression => rfl

/-- The last elements of lists that are related are related. -/
theorem rel_getLast? {α : Type} {R : α → α → Prop} {l l' : List α} (h : List.Forall₂ R l l') :
    Option.Rel R l.getLast? l'.getLast? := by
  have hreverse := List.forall₂_reverse_iff.mpr h
  rw [← List.head?_reverse, ← List.head?_reverse]
  generalize l.reverse = r, l'.reverse = r' at hreverse ⊢
  cases hreverse with
  | nil => exact .none
  | cons head _ => exact .some head

namespace Program.ConsistsOf

variable {ss ss' : List Statement} {p p' : Program} (hp : p.ConsistsOf ss) (hp' : p'.ConsistsOf ss')
  (h : List.Forall₂ Statement.Alpha ss ss')

include hp hp' h

/-- Statements that differ in bound variables put declarations in force that do. -/
theorem declaredAlpha (name : String) :
    DeclaredAlpha (p.declaration? name) (p'.declaration? name) := by
  apply DeclaredAlpha.of_statements
  rw [hp.declaration?_eq, hp'.declaration?_eq]
  exact rel_getLast? (List.rel_filter (fun _ _ h => h.declares_iff name) h)

/-- They declare the same names, with as many parameters. -/
theorem sameCalls : Resolution.SameCalls p p' where
  names := by
    have hnames {ss : List Statement} {p : Program} (hp : p.ConsistsOf ss) : p.declarations.names =
        (ss.filterMap fun s => s.prototype?.map Prototype.name).eraseDups := by
      rcases hp with rfl | rfl <;> exact names_ofStatements ss
    rw [hnames hp, hnames hp', Statement.Alpha.names_eq h]
  arity name := (hp.declaredAlpha hp' h name).arity_eq

/-- The definitions are related in order. -/
theorem definitions_alpha : List.Forall₂ Definition.Alpha p.definitions p'.definitions := by
  have hdefinitions {ss : List Statement} {p : Program} (hp : p.ConsistsOf ss) :
      p.definitions = ss.filterMap Statement.definition? := by
    rcases hp with rfl | rfl <;> exact definitions_ofStatements ss
  rw [hdefinitions hp, hdefinitions hp']
  refine List.rel_filterMap (fun s s' h => ?_) h
  cases h with
  | foreign => exact .none
  | definition h => exact .some h
  | expression => exact .none

/-- So are the formulas. -/
theorem expressions_alpha : List.Forall₂ (Expr.Alpha Eq) p.expressions p'.expressions := by
  have hexpressions {ss : List Statement} {p : Program} (hp : p.ConsistsOf ss) :
      p.expressions = ss.filterMap Statement.expression? := by
    rcases hp with rfl | rfl <;> exact expressions_ofStatements ss
  rw [hexpressions hp, hexpressions hp']
  refine List.rel_filterMap (fun s s' h => ?_) h
  cases h with
  | foreign => exact .none
  | definition => exact .none
  | expression h => exact .some h

end Program.ConsistsOf

namespace Evaluator

/-- Programs of statements that differ in bound variables run to the same: where a run of one ends, a
run of the other does. -/
theorem run_endsAlong {ss ss' : List Statement} {p p' : Program} (hp : p.ConsistsOf ss)
    (hp' : p'.ConsistsOf ss') (h : List.Forall₂ Statement.Alpha ss ss')
    {added : NameTable (List Float → Routine)} (overlooks : Overlooks added) (callLimit : Int)
    (printsResults : Bool) (s : State) :
    EndsAlong (fun fuel => (ofProgram p added callLimit printsResults).run p fuel)
      (fun fuel => (ofProgram p' added callLimit printsResults).run p' fuel) s := by
  let w : Setting := { program := p, added, callLimit }
  let w' : Setting := { program := p', added, callLimit }
  have same : w.Alpha w' := ⟨hp.declaredAlpha hp' h, rfl, overlooks, rfl⟩
  have hcomputes (w : Setting) (hw : w.program.Built) :
      Computes (fun fuel => (w.evaluator printsResults).run w.program fuel) s
        (OneByOne (Evaluates w s.activeCalls .empty) printsResults w.program.expressions) := by
    apply computes_evaluateAll (w.evaluator printsResults) w.program (n := s.activeCalls)
    · intro e s' hs
      rw [← hs]
      exact computes_evaluate w hw printsResults e []
    · rfl
  refine (hcomputes w hp.built).endsAlong (hcomputes w' hp'.built) fun r out hr => ?_
  exact hr.along (hp.expressions_alpha hp' h) fun e e' he r out hmeans =>
    hmeans.alpha same he (.refl _)

/-- The names of bound variables change nothing. Let one parameter of one definition be renamed, in its
prototype and where it occurs free in the body, or the variable of one loop somewhere in a body or in
a formula, in its header and where it occurs free in the end, the step and the body of the loop; and
let the new name not occur as a variable in that definition or formula. Then the program and any
program of the renamed statements, whatever their spans, have the same resolution errors in the same
order, apart from locations and from spans and variables in the nodes. Their runs, begun in the same
state, end alike: where one ends, so does the other, in the same state with what was written up to
there, and with the same results, or with the same error apart from its place. Added functions must not
look at such places. -/
theorem renaming_changes_nothing {p p' : Program} {before behind ss' : List Statement}
    {s s' : Statement} {new : String} (hp : p.ConsistsOf (before ++ s :: behind))
    (hp' : p'.ConsistsOf ss') (hrenamed : s.Renamed new s') (hnew : new ∉ s.variableNames)
    (hbare : (before ++ s' :: behind).map Statement.bare = ss'.map Statement.bare)
    {added : NameTable (List Float → Routine)} (overlooks : Overlooks added) (callLimit : Int)
    (printsResults : Bool) (state : State) :
    let run := fun fuel => (ofProgram p added callLimit printsResults).run p fuel
    let run' := fun fuel => (ofProgram p' added callLimit printsResults).run p' fuel
    p'.resolve.errors.map ResolutionError.core = p.resolve.errors.map ResolutionError.core ∧
      EndsAlong run run' state ∧ EndsAlong run' run state := by
  intro run run'
  have hsame (ss : List Statement) : List.Forall₂ Statement.Alpha ss ss :=
    List.forall₂_same.mpr fun s _ => .refl s
  have halpha : List.Forall₂ Statement.Alpha (before ++ s :: behind) ss' :=
    Statement.Alpha.list_of_bare_eq
      (List.rel_append (hsame before) (.cons (hrenamed.alpha hnew) (hsame behind))) hbare
  have halpha' : List.Forall₂ Statement.Alpha ss' (before ++ s :: behind) :=
    (halpha.imp fun _ _ h => h.symm).flip
  refine ⟨?_, run_endsAlong hp hp' halpha overlooks callLimit printsResults state,
    run_endsAlong hp' hp halpha' overlooks callLimit printsResults state⟩
  exact Resolution.errors_alpha (hp.sameCalls hp' halpha) (hp.definitions_alpha hp' halpha)
    (hp.expressions_alpha hp' halpha)

/-- A parameter is renamed around a loop over a variable of its old name: in the start of the loop, and
nowhere else in it. The second formula has too few arguments before and after. -/
theorem renaming_around_loop :
    let turns (start : Expr) : Expr :=
      .loop "x" start (.binary .lessThan (.var "x" none) (.number 3.0 none) none) none (.var "x" none)
        none
    let d : Definition := ⟨⟨"f", ["x", "n"], none⟩, turns (.var "x" none)⟩
    let d' : Definition := ⟨⟨"f", ["y", "n"], none⟩, turns (.var "y" none)⟩
    let short : Expr := .call "f" [.number 1.0 none] none
    let formulas : List Statement :=
      [.expression (.call "f" [.number 1.0 none, .number 2.0 none] none), .expression short]
    let p := Program.ofStatements (.definition d :: formulas)
    let p' := Program.ofStatements (.definition d' :: formulas)
    let f : Fault := .unresolved { cause := .arityMismatch "f" 2 1, node := some short }
    p'.resolve.errors.map ResolutionError.core = p.resolve.errors.map ResolutionError.core ∧
      (ofProgram p).run p 20 {} = .fault f {} ∧
      ∃ f' fuel, f.core = f'.core ∧ (ofProgram p').run p' fuel {} = .fault f' {} := by
  intro turns d d' short formulas p p' f
  have hp : p.ConsistsOf ([] ++ .definition d :: formulas) := .inl rfl
  have hp' : p'.ConsistsOf ([] ++ .definition d' :: formulas) := .inl rfl
  have hrenamed : (Statement.definition d).Renamed "y" (.definition (d.renameParameter "x" "y")) :=
    .parameter List.mem_cons_self
  have hnew : "y" ∉ (Statement.definition d).variableNames := by decide
  have hadded : Overlooks {} := fun _ _ hfound => by cases hfound
  obtain ⟨herrors, halong, _⟩ :=
    renaming_changes_nothing hp hp' hrenamed hnew rfl hadded defaultCallLimit false {}
  have hfault : (ofProgram p).run p 20 {} = .fault f {} := rfl
  obtain ⟨_, hsame, fuel, hended⟩ := halong (.error f) {} ⟨20, hfault⟩
  cases hsame with
  | error hcore => exact ⟨herrors, hfault, _, fuel, hcore, hended⟩

end Evaluator

end Formulary
