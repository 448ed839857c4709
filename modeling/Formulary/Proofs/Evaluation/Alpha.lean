import Formulary.Proofs.Evaluation.Free
import Formulary.Proofs.Resolution.Alpha

/-!
# Evaluation and the names of bound variables

In trees that differ in the names of bound variables, evaluated in environments in which variables that
stand for each other have the same value, the semantics gives the same value and the same text, or faults
that differ in their places and in the variables of their nodes at most. Calls carry no environment: the
bodies of a definition are related from their parameters on. Added functions may do what they like as
long as they do not look at the places and the variables of the faults that they are given.
-/

namespace Formulary

open Evaluation

/-- A fault without its place. -/
def Fault.core : Fault → Fault
  | unresolved e => unresolved e.core
  | failed e => failed e

namespace Evaluation

/-- The same value, or faults that are the same but for their places. -/
inductive SameResult {α : Type} : Except Fault α → Except Fault α → Prop
  | ok (x : α) : SameResult (.ok x) (.ok x)
  | error {f f' : Fault} (h : f.core = f'.core) : SameResult (.error f) (.error f')

namespace SameResult

variable {α : Type} {r r' : Except Fault α}

theorem refl (r : Except Fault α) : SameResult r r := by
  cases r with
  | ok x => exact .ok x
  | error f => exact .error rfl

/-- It remains so when values are changed in the same way. -/
theorem map {β : Type} (h : SameResult r r') (g : α → β) : SameResult (r.map g) (r'.map g) := by
  cases h with
  | ok x => exact .ok (g x)
  | error h => exact .error h

end SameResult

/-! ### Environments -/

/-- Variables that stand for each other have the same value, or none and the same name. -/
def Env.Matches (pairs : Pairing) (env env' : Env) : Prop :=
  ∀ x y, pairs x y → env x = env' y ∧ (env x = none → x = y)

namespace Env.Matches

variable {pairs : Pairing} {env env' : Env}

/-- So it is where the variables of two loops have the same value. -/
theorem bind (h : Matches pairs env env') {name name' : String} {x : Float} :
    Matches (pairs.bind name name') (env.bind name x) (env'.bind name' x) := by
  intro a b hpair
  unfold Env.bind
  obtain ⟨rfl, rfl⟩ | ⟨ha, hb, hpair⟩ := hpair
  · simp
  · simpa [ha, hb] using h a b hpair

/-- So it is where parameters have the same values in order. -/
theorem bindAll {names names' : List String} {values : List Float} (h : Matches pairs env env')
    (hlength : names.length = values.length) (hlength' : names'.length = values.length) :
    Matches (pairs.bindAll names names') (env.bindAll (names.zip values))
      (env'.bindAll (names'.zip values)) := by
  induction values generalizing pairs env env' names names' with
  | nil =>
    rw [List.length_nil, List.length_eq_zero_iff] at hlength hlength'
    subst hlength hlength'
    exact h
  | cons x values ih =>
    cases names with
    | nil => contradiction
    | cons name names =>
      cases names' with
      | nil => contradiction
      | cons name' names' => exact ih h.bind (Nat.succ.inj hlength) (Nat.succ.inj hlength')

/-- An environment matches itself where every variable stands for itself. -/
theorem refl (env : Env) : Matches Eq env env := by
  rintro x _ rfl
  exact ⟨rfl, fun _ => rfl⟩

end Env.Matches

/-! ### Settings -/

/-- Routines that answer the same, or have the same call or expression evaluated and go on in the same
way whenever that comes to the same. -/
inductive Routine.Same : Routine → Routine → Prop
  | done {r r'} (h : SameResult r r') : Same (done r) (done r')
  | call {name arguments next next'} (h : ∀ r r', SameResult r r' → Same (next r) (next' r')) :
    Same (call name arguments next) (call name arguments next')
  | evaluate {e bindings next next'} (h : ∀ r r', SameResult r r' → Same (next r) (next' r')) :
    Same (evaluate e bindings next) (evaluate e bindings next')

/-- Added functions that do not look at the places of faults, nor at the variables in their nodes. -/
def Overlooks (added : NameTable (List Float → Routine)) : Prop :=
  ∀ name routine, added.get? name = some routine → ∀ values, (routine values).Same (routine values)

/-- Declarations of a name that differ in bound variables only, or none. -/
inductive DeclaredAlpha : Option Declaration → Option Declaration → Prop
  | undeclared : DeclaredAlpha none none
  | foreign {q q'} (arity : q'.arity = q.arity) :
    DeclaredAlpha (some (.foreign q)) (some (.foreign q'))
  | definition {d d' rank rank'} (h : d.Alpha d') :
    DeclaredAlpha (some (.definition d rank)) (some (.definition d' rank'))

namespace DeclaredAlpha

variable {a b : Option Declaration}

/-- The statements that made the declarations decide. -/
theorem of_statements (h : Option.Rel Statement.Alpha (a.map Declaration.statement)
    (b.map Declaration.statement)) : DeclaredAlpha a b := by
  rcases a with _ | q | ⟨d, rank⟩ <;> rcases b with _ | q' | ⟨d', rank'⟩ <;> cases h
  · exact .undeclared
  · next h =>
    cases h with
    | foreign _ arity => exact .foreign arity.symm
  · next h => cases h
  · next h => cases h
  · next h =>
    cases h with
    | definition h => exact .definition h

/-- The number of parameters is the same. -/
theorem arity_eq (h : DeclaredAlpha a b) :
    (b.map Declaration.prototype).map Prototype.arity =
      (a.map Declaration.prototype).map Prototype.arity := by
  cases h with
  | undeclared => rfl
  | foreign arity => exact congrArg some arity
  | definition h => exact congrArg some h.arity.symm

/-- Where one declaration is missing, so is the other. -/
theorem undeclared_left (h : DeclaredAlpha none b) : b = none := by
  cases h with
  | undeclared => rfl

/-- To each declaration there is another one with as many parameters. -/
theorem declared_left {d : Declaration} (h : DeclaredAlpha (some d) b) :
    ∃ d', b = some d' ∧ d'.prototype.arity = d.prototype.arity := by
  cases h with
  | foreign arity => exact ⟨_, rfl, arity⟩
  | definition h => exact ⟨_, rfl, h.arity.symm⟩

/-- To a function from outside there is another one. -/
theorem foreign_left {q : Prototype} (h : DeclaredAlpha (some (.foreign q)) b) :
    ∃ q', b = some (.foreign q') ∧ q'.arity = q.arity := by
  cases h with
  | foreign arity => exact ⟨_, rfl, arity⟩

/-- To a definition there is one with another choice of bound variables. -/
theorem definition_left {d : Definition} {rank : Nat}
    (h : DeclaredAlpha (some (.definition d rank)) b) :
    ∃ d' rank', b = some (.definition d' rank') ∧ d.Alpha d' := by
  cases h with
  | definition h => exact ⟨_, _, rfl, h⟩

end DeclaredAlpha

/-- Settings with the same added functions and the same limit on calls, whose declarations differ in
bound variables only. -/
structure Setting.Alpha (w w' : Setting) : Prop where
  declared : ∀ name, DeclaredAlpha (w.program.declaration? name) (w'.program.declaration? name)
  added : w'.added = w.added
  overlooks : Overlooks w.added
  callLimit : w'.callLimit = w.callLimit

/-- What one setting declares under a name tells what the other does. -/
theorem Setting.Alpha.declaredAs {w w' : Setting} (h : w.Alpha w') {name : String}
    {a : Option Declaration} (hname : w.program.declaration? name = a) :
    DeclaredAlpha a (w'.program.declaration? name) := hname ▸ h.declared name

/-! ### Evaluation -/

/-- Faults about calls at nodes of the same shape are the same but for their places. -/
theorem callFault_core {node node' : Option Expr} (h : node.map Expr.shape = node'.map Expr.shape)
    (cause : ResolutionCause) :
    (Evaluator.callFault node cause).core = (Evaluator.callFault node' cause).core := by
  simp [Evaluator.callFault, Fault.core, ResolutionError.core, h]

variable {w w' : Setting}

mutual

/-- Trees that differ in bound variables mean the same, in environments that match. -/
theorem Evaluates.alpha {n : Nat} {env env' : Env} {e e' : Expr} {r : Except Fault Float}
    {out : String} {pairs : Pairing} (h : Evaluates w n env e r out) (same : w.Alpha w')
    (he : e.Alpha pairs e') (hmatches : env.Matches pairs env') :
    ∃ r', Evaluates w' n env' e' r' out ∧ SameResult r r' := by
  match h, he with
  | .number, .number => exact ⟨_, .number, .ok _⟩
  | .var bound, .var paired =>
    exact ⟨_, .var ((hmatches _ _ paired).1.symm.trans bound), .ok _⟩
  | .unbound free, .var paired =>
    obtain ⟨hsame, hname⟩ := hmatches _ _ paired
    refine ⟨_, .unbound (hsame.symm.trans free), .error ?_⟩
    rw [hname free]
    rfl
  | .binary operands, .binary left right =>
    obtain ⟨_, hoperands, hr⟩ := operands.alpha same (.cons left (.cons right .nil)) hmatches
    cases hr
    exact ⟨_, .binary hoperands, .ok _⟩
  | .binaryFault operands, .binary left right =>
    obtain ⟨_, hoperands, hr⟩ := operands.alpha same (.cons left (.cons right .nil)) hmatches
    cases hr with
    | error hf => exact ⟨_, .binaryFault hoperands, .error hf⟩
  | .call given called, @Expr.Alpha.call _ _ _ es' _ s' arguments =>
    obtain ⟨_, hgiven, hr⟩ := given.alpha same arguments hmatches
    cases hr
    obtain ⟨r', hcalled, hr⟩ :=
      called.alpha same (some (.call _ es' s')) (congrArg some (Expr.Alpha.call arguments).shape_eq)
    exact ⟨r', .call hgiven hcalled, hr⟩
  | .callFault given, .call arguments =>
    obtain ⟨_, hgiven, hr⟩ := given.alpha same arguments hmatches
    cases hr with
    | error hf => exact ⟨_, .callFault hgiven, .error hf⟩
  | .condTrue tested holds chosen, .cond condition consequent _ =>
    obtain ⟨_, htested, hr⟩ := tested.alpha same condition hmatches
    cases hr
    obtain ⟨r', hchosen, hr⟩ := chosen.alpha same consequent hmatches
    exact ⟨r', .condTrue htested holds hchosen, hr⟩
  | .condFalse tested fails chosen, .cond condition _ alternative =>
    obtain ⟨_, htested, hr⟩ := tested.alpha same condition hmatches
    cases hr
    obtain ⟨r', hchosen, hr⟩ := chosen.alpha same alternative hmatches
    exact ⟨r', .condFalse htested fails hchosen, hr⟩
  | .condFault tested, .cond condition _ _ =>
    obtain ⟨_, htested, hr⟩ := tested.alpha same condition hmatches
    cases hr with
    | error hf => exact ⟨_, .condFault htested, .error hf⟩
  | .loop started turned, .loop start stop step body =>
    obtain ⟨_, hstarted, hr⟩ := started.alpha same start hmatches
    cases hr
    obtain ⟨r', hturned, hr⟩ :=
      turned.alpha same (.cons body (.cons (step.getD 1.0) (.cons stop .nil))) hmatches
    exact ⟨r', .loop hstarted hturned, hr⟩
  | .loopFault started, .loop start _ _ _ =>
    obtain ⟨_, hstarted, hr⟩ := started.alpha same start hmatches
    cases hr with
    | error hf => exact ⟨_, .loopFault hstarted, .error hf⟩

/-- So do those of lists. -/
theorem EvaluatesAll.alpha {n : Nat} {env env' : Env} {es es' : List Expr}
    {r : Except Fault (List Float)} {out : String} {pairs : Pairing}
    (h : EvaluatesAll w n env es r out) (same : w.Alpha w') (hes : Expr.AlphaAll pairs es es')
    (hmatches : env.Matches pairs env') :
    ∃ r', EvaluatesAll w' n env' es' r' out ∧ SameResult r r' := by
  match h, hes with
  | .nil, .nil => exact ⟨_, .nil, .ok _⟩
  | .cons first others, .cons head tail =>
    obtain ⟨_, hfirst, hr⟩ := first.alpha same head hmatches
    cases hr
    obtain ⟨_, hothers, hr⟩ := others.alpha same tail hmatches
    cases hr
    exact ⟨_, .cons hfirst hothers, .ok _⟩
  | .fault first, .cons head _ =>
    obtain ⟨_, hfirst, hr⟩ := first.alpha same head hmatches
    cases hr with
    | error hf => exact ⟨_, .fault hfirst, .error hf⟩
  | .later first others, .cons head tail =>
    obtain ⟨_, hfirst, hr⟩ := first.alpha same head hmatches
    cases hr
    obtain ⟨_, hothers, hr⟩ := others.alpha same tail hmatches
    cases hr with
    | error hf => exact ⟨_, .later hfirst hothers, .error hf⟩

/-- So do the turns of loops whose parts differ in bound variables where their own are paired. -/
theorem Turns.alpha {n : Nat} {env env' : Env} {name name' : String} {stop stop' body body' : Expr}
    {step step' : Option Expr} {x : Float} {r : Except Fault Float} {out : String} {pairs : Pairing}
    (h : Turns w n env name stop step body x r out) (same : w.Alpha w')
    (hparts : Expr.AlphaAll (pairs.bind name name') (Expr.turnParts stop step body)
      (Expr.turnParts stop' step' body')) (hmatches : env.Matches pairs env') :
    ∃ r', Turns w' n env' name' stop' step' body' x r' out ∧ SameResult r r' := by
  match h with
  | .fault turn =>
    obtain ⟨_, hturn, hr⟩ := turn.alpha same hparts hmatches.bind
    cases hr with
    | error hf => exact ⟨_, .fault hturn, .error hf⟩
  | .last turn ends =>
    obtain ⟨_, hturn, hr⟩ := turn.alpha same hparts hmatches.bind
    cases hr
    exact ⟨_, .last hturn ends, .ok _⟩
  | .next turn goes others =>
    obtain ⟨_, hturn, hr⟩ := turn.alpha same hparts hmatches.bind
    cases hr
    obtain ⟨r', hothers, hr⟩ := others.alpha same hparts hmatches
    exact ⟨r', .next hturn goes hothers, hr⟩

/-- So do calls, whose bodies see their parameters alone. -/
theorem Calls.alpha {n : Nat} {node : Option Expr} {name : String} {values : List Float}
    {r : Except Fault Float} {out : String} (h : Calls w n node name values r out)
    (same : w.Alpha w') (node' : Option Expr) (hnode : node.map Expr.shape = node'.map Expr.shape) :
    ∃ r', Calls w' n node' name values r' out ∧ SameResult r r' := by
  match h with
  | .unknown undeclared =>
    exact ⟨_, .unknown (same.declaredAs undeclared).undeclared_left, .error (callFault_core hnode _)⟩
  | .mismatch declared arity =>
    obtain ⟨d', declared', harity⟩ := (same.declaredAs declared).declared_left
    refine ⟨_, .mismatch declared' (harity ▸ arity), .error ?_⟩
    rw [harity]
    exact callFault_core hnode _
  | .tooDeep declared arity depth =>
    obtain ⟨d', rank', declared', hd⟩ := (same.declaredAs declared).definition_left
    refine ⟨_, .tooDeep declared' (hd.arity.symm.trans arity) (same.callLimit ▸ depth), ?_⟩
    rw [same.callLimit]
    exact .refl _
  | .body declared arity depth run =>
    obtain ⟨d', rank', declared', hd⟩ := (same.declaredAs declared).definition_left
    have harity := hd.arity.symm.trans arity
    -- nothing is bound around a body, so its parameters are all that has to match
    have hparams := (Env.Matches.refl .empty).bindAll arity harity
    obtain ⟨r', hrun, hr⟩ := run.alpha same hd.body hparams
    exact ⟨r', .body declared' harity (same.callLimit ▸ depth) hrun, hr⟩
  | .added declared arity found run =>
    obtain ⟨q', declared', harity⟩ := (same.declaredAs declared).foreign_left
    obtain ⟨r', hrun, hr⟩ := run.alpha same (same.overlooks _ _ found values)
    exact ⟨r', .added declared' (harity.trans arity) (same.added ▸ found) hrun, hr⟩
  | .standard declared arity found known own =>
    obtain ⟨q', declared', harity⟩ := (same.declaredAs declared).foreign_left
    exact ⟨_, .standard declared' (harity.trans arity) (same.added ▸ found) known
      (own.trans harity.symm), .refl _⟩
  | .refused declared arity found known own =>
    obtain ⟨q', declared', harity⟩ := (same.declaredAs declared).foreign_left
    refine ⟨_, .refused declared' (harity.trans arity) (same.added ▸ found) known (harity ▸ own), ?_⟩
    rw [harity]
    exact .refl _
  | .unbound declared arity found known =>
    obtain ⟨q', declared', harity⟩ := (same.declaredAs declared).foreign_left
    exact ⟨_, .unbound declared' (harity.trans arity) (same.added ▸ found) known, .refl _⟩

/-- So do routines that go on in the same way. -/
theorem Performs.alpha {n : Nat} {routine routine' : Routine} {r : Except Fault Float} {out : String}
    (h : Performs w n routine r out) (same : w.Alpha w') (hroutine : routine.Same routine') :
    ∃ r', Performs w' n routine' r' out ∧ SameResult r r' := by
  match h, hroutine with
  | .done, .done hanswer => exact ⟨_, .done, hanswer⟩
  | .call called goesOn, .call hnext =>
    obtain ⟨_, hcalled, hr⟩ := called.alpha same none rfl
    obtain ⟨r', hgoesOn, hr⟩ := goesOn.alpha same (hnext _ _ hr)
    exact ⟨r', .call hcalled hgoesOn, hr⟩
  | .evaluate evaluated goesOn, .evaluate hnext =>
    -- a tree that a routine brings along is the same in both settings, what it calls is not
    obtain ⟨_, hevaluated, hr⟩ := evaluated.alpha same (.refl fun _ _ => rfl) (.refl _)
    obtain ⟨r', hgoesOn, hr⟩ := goesOn.alpha same (hnext _ _ hr)
    exact ⟨r', .evaluate hevaluated hgoesOn, hr⟩

end

end Evaluation

end Formulary
