import Formulary.Proofs.Evaluation.Session
import Formulary.Proofs.Resolution.Spans
import Mathlib.Data.List.Forall2

/-!
# Spans and evaluation

Where a program stands in a text matters to its evaluation only in the places that faults name, and
of its declarations only those matter that can be called. `callable` is any set of names that the
bodies of its members and the added functions do not lead out of. Two evaluations of trees that
differ in their spans, in settings that declare the same under callable names, are `Alike` at every
amount of fuel: both end in the same state, with the same value or with faults that differ in their
places, or neither ends. The proof is by induction on the fuel.
-/

namespace Formulary

open Evaluation Program

/-- A fault without its place. -/
def Fault.bare : Fault → Fault
  | unresolved e => unresolved e.bare
  | failed e => failed e

/-! ### Trees -/

/-- A tree calls callable names only, and another tree differs from it in spans only. -/
structure Expr.Alike (callable : String → Prop) (e e' : Expr) : Prop where
  bare : e.bare = e'.bare
  callees : ∀ name ∈ e.callees, callable name

namespace Expr.Alike

variable {callable : String → Prop} {e' : Expr} {span : Option Span}

/-- Only the same number is like a number. -/
theorem number {value : Float} (h : (Expr.number value span).Alike callable e') :
    ∃ span', e' = .number value span' := by
  have hbare := h.bare
  cases e' with
  | number value' span' =>
    simp only [Expr.bare, number.injEq, and_true] at hbare
    exact ⟨span', by rw [hbare]⟩
  | _ => simp [Expr.bare, bare_loop] at hbare

/-- Only the same variable is like a variable. -/
theorem var {name : String} (h : (Expr.var name span).Alike callable e') :
    ∃ span', e' = .var name span' := by
  have hbare := h.bare
  cases e' with
  | var name' span' =>
    simp only [Expr.bare, var.injEq, and_true] at hbare
    exact ⟨span', by rw [hbare]⟩
  | _ => simp [Expr.bare, bare_loop] at hbare

/-- Only an operation with the same operator is like an operation, and the operands are alike. -/
theorem binary {op : Operator} {left right : Expr}
    (h : (Expr.binary op left right span).Alike callable e') : ∃ left' right' span',
      e' = .binary op left' right' span' ∧ left.Alike callable left' ∧
        right.Alike callable right' := by
  obtain ⟨hbare, hcallees⟩ := h
  cases e' with
  | binary op' left' right' span' =>
    simp only [Expr.bare, binary.injEq, and_true] at hbare
    obtain ⟨rfl, hleft, hright⟩ := hbare
    rw [Expr.callees, List.forall_mem_append] at hcallees
    exact ⟨left', right', span', rfl, ⟨hleft, hcallees.1⟩, ⟨hright, hcallees.2⟩⟩
  | _ => simp [Expr.bare, bare_loop] at hbare

/-- Lists that differ in spans only have trees that do. -/
theorem list {es es' : List Expr} (hbares : bares es = bares es')
    (hcallees : ∀ name ∈ calleesAll es, callable name) :
    List.Forall₂ (Expr.Alike callable) es es' := by
  induction es generalizing es' with
  | nil =>
    cases es' with
    | nil => exact .nil
    | cons e' rest' => contradiction
  | cons e rest ih =>
    cases es' with
    | nil => contradiction
    | cons e' rest' =>
      obtain ⟨he, hrest⟩ := List.cons.inj hbares
      rw [calleesAll, List.forall_mem_append] at hcallees
      exact .cons ⟨he, hcallees.1⟩ (ih hrest hcallees.2)

/-- Only a call of the same name is like a call, and the arguments are alike. -/
theorem call {name : String} {arguments : List Expr}
    (h : (Expr.call name arguments span).Alike callable e') :
    callable name ∧ ∃ arguments' span', e' = .call name arguments' span' ∧
      List.Forall₂ (Expr.Alike callable) arguments arguments' := by
  obtain ⟨hbare, hcallees⟩ := h
  cases e' with
  | call name' arguments' span' =>
    simp only [Expr.bare, call.injEq, and_true] at hbare
    obtain ⟨rfl, harguments⟩ := hbare
    rw [Expr.callees, List.forall_mem_cons] at hcallees
    exact ⟨hcallees.1, arguments', span', rfl, list harguments hcallees.2⟩
  | _ => simp [Expr.bare, bare_loop] at hbare

/-- Only a condition is like a condition, and the parts are alike. -/
theorem cond {condition consequent alternative : Expr}
    (h : (Expr.cond condition consequent alternative span).Alike callable e') :
    ∃ condition' consequent' alternative' span',
      e' = .cond condition' consequent' alternative' span' ∧ condition.Alike callable condition' ∧
        consequent.Alike callable consequent' ∧ alternative.Alike callable alternative' := by
  obtain ⟨hbare, hcallees⟩ := h
  cases e' with
  | cond condition' consequent' alternative' span' =>
    simp only [Expr.bare, cond.injEq, and_true] at hbare
    simp only [Expr.callees, List.forall_mem_append] at hcallees
    exact ⟨condition', consequent', alternative', span', rfl, ⟨hbare.1, hcallees.1⟩,
      ⟨hbare.2.1, hcallees.2.1⟩, ⟨hbare.2.2, hcallees.2.2⟩⟩
  | _ => simp [Expr.bare, bare_loop] at hbare

/-- Only a loop of the same variable is like a loop, both have a step or neither, and the parts are
alike. -/
theorem loop {name : String} {start stop body : Expr} {step : Option Expr}
    (h : (Expr.loop name start stop step body span).Alike callable e') :
    ∃ start' stop' step' body' span', e' = .loop name start' stop' step' body' span' ∧
      start.Alike callable start' ∧ stop.Alike callable stop' ∧
        Option.Rel (Expr.Alike callable) step step' ∧ body.Alike callable body' := by
  obtain ⟨hbare, hcallees⟩ := h
  cases e' with
  | loop name' start' stop' step' body' span' =>
    simp only [bare_loop, loop.injEq, and_true] at hbare
    obtain ⟨rfl, hstart, hstop, hstep, hbody⟩ := hbare
    cases step with
    | none =>
      rw [Option.map_none, eq_comm, Option.map_eq_none_iff] at hstep
      subst hstep
      simp only [Expr.callees, List.forall_mem_append] at hcallees
      exact ⟨start', stop', none, body', span', rfl, ⟨hstart, hcallees.1⟩,
        ⟨hstop, hcallees.2.1⟩, .none, ⟨hbody, hcallees.2.2⟩⟩
    | some s =>
      rw [Option.map_some, eq_comm, Option.map_eq_some_iff] at hstep
      obtain ⟨s', rfl, hs⟩ := hstep
      simp only [Expr.callees, List.forall_mem_append] at hcallees
      exact ⟨start', stop', some s', body', span', rfl, ⟨hstart, hcallees.1⟩,
        ⟨hstop, hcallees.2.1⟩, .some ⟨hs.symm, hcallees.2.2.1⟩, ⟨hbody, hcallees.2.2.2⟩⟩
  | _ => simp [Expr.bare, bare_loop] at hbare

end Expr.Alike

namespace Evaluation

/-! ### Actions -/

/-- Results that differ in the place of a fault at most. -/
def ResultAlike {α : Type} (r r' : Except Fault α) : Prop :=
  r.mapError Fault.bare = r'.mapError Fault.bare

/-- The same value, or faults that differ in their places at most, in the same state; or no end in
both. -/
inductive Outcome.Alike {α : Type} : Outcome α → Outcome α → Prop where
  | value (a : α) (after : State) : Alike (.value a after) (.value a after)
  | fault {f f' : Fault} (h : f.bare = f'.bare) (after : State) :
    Alike (.fault f after) (.fault f' after)
  | outOfFuel : Alike .outOfFuel .outOfFuel

/-- Actions with outcomes alike in every state. -/
def Action.Alike {α : Type} (a b : Action α) : Prop := ∀ s, (a s).Alike (b s)

namespace Outcome.Alike

variable {α : Type}

theorem refl (o : Outcome α) : o.Alike o := by
  cases o with
  | value a after => exact .value a after
  | fault f after => exact .fault rfl after
  | outOfFuel => exact .outOfFuel

/-- A change of the state keeps outcomes alike. -/
theorem mapState {o o' : Outcome α} (h : o.Alike o') (g : State → State) :
    (Action.mapState g o).Alike (Action.mapState g o') := by
  cases h with
  | value a after => exact .value a (g after)
  | fault h after => exact .fault h (g after)
  | outOfFuel => exact .outOfFuel

end Outcome.Alike

namespace Action.Alike

variable {α β : Type} {a b : Action α}

theorem refl (a : Action α) : a.Alike a := fun s => .refl (a s)

/-- Faults that differ in their places. -/
theorem stop {f f' : Fault} (h : f.bare = f'.bare) : (Action.stop f : Action α).Alike (.stop f') :=
  fun s => .fault h s

/-- Sequences are alike if their parts are. -/
theorem bind {f g : α → Action β} (h : a.Alike b) (hnext : ∀ x, (f x).Alike (g x)) :
    (a >>= f).Alike (b >>= g) := by
  intro s
  have hs := h s
  change Outcome.Alike (Action.bind a f s) (Action.bind b g s)
  unfold Action.bind
  generalize a s = o, b s = o' at hs
  cases hs with
  | value x after => exact hnext x after
  | fault h after => exact .fault h after
  | outOfFuel => exact .outOfFuel

theorem inScopes (h : a.Alike b) (scopes : List Frame) :
    (Action.inScopes scopes a).Alike (Action.inScopes scopes b) := fun _ => (h _).mapState _

theorem inFrame (h : a.Alike b) (frame : Frame) :
    (Action.inFrame frame a).Alike (Action.inFrame frame b) := fun _ => (h _).mapState _

theorem asCall (h : a.Alike b) : (Action.asCall a).Alike (Action.asCall b) :=
  fun _ => (h _).mapState _

/-- What goes on after a fault has to go on alike after faults that differ in their places. -/
theorem attempt {next next' : Except Fault α → Action β} (h : a.Alike b)
    (hnext : ∀ r r', ResultAlike r r' → (next r).Alike (next' r')) :
    (Action.attempt a next).Alike (Action.attempt b next') := by
  intro s
  have hs := h s
  unfold Action.attempt
  generalize a s = o, b s = o' at hs
  cases hs with
  | value x after => exact hnext _ _ rfl after
  | @fault f f' h after => exact hnext (.error f) (.error f') (congrArg Except.error h) after
  | outOfFuel => exact .outOfFuel

end Action.Alike

/-! ### Added functions -/

/-- Routines that answer alike, or have the same call or formula evaluated and go on alike whenever
what that comes to is alike. They call callable names only. -/
inductive Routine.Alike (callable : String → Prop) : Routine → Routine → Prop where
  | done {answer answer'} (h : ResultAlike answer answer') :
    Alike callable (done answer) (done answer')
  | call {name arguments next next'} (called : callable name)
    (h : ∀ r r', ResultAlike r r' → Alike callable (next r) (next' r')) :
    Alike callable (call name arguments next) (call name arguments next')
  | evaluate {e e' bindings next next'} (he : e.Alike callable e')
    (h : ∀ r r', ResultAlike r r' → Alike callable (next r) (next' r')) :
    Alike callable (evaluate e bindings next) (evaluate e' bindings next')

/-- Added functions that do not look at the places of faults, and call callable names only. -/
def Blind (callable : String → Prop) (added : NameTable (List Float → Routine)) : Prop :=
  ∀ name routine, added.get? name = some routine →
    ∀ values, (routine values).Alike callable (routine values)

end Evaluation

/-- What the formulas of a program call is callable, and so is what the body of a callable definition
calls. -/
structure Program.RunsWithin (callable : String → Prop) (p : Program) : Prop where
  formulas : ∀ e ∈ p.expressions, ∀ name ∈ e.callees, callable name
  bodies : ∀ name d rank, callable name → p.declaration? name = some (.definition d rank) →
    ∀ callee ∈ d.body.callees, callable callee

/-- Settings with the same added functions and the same limit on calls, in which callable names are
declared alike and nothing leads out of them. -/
structure Evaluation.Setting.Alike (callable : String → Prop) (w w' : Setting) : Prop where
  built : w.program.Built
  built' : w'.program.Built
  runsWithin : w.program.RunsWithin callable
  declared : ∀ name, callable name → w.program.declared name = w'.program.declared name
  added : w'.added = w.added
  blind : Blind callable w.added
  callLimit : w'.callLimit = w.callLimit

namespace Evaluator

/-- Faults about calls that differ in spans differ in their places at most. -/
theorem callFault_bare {node node' : Option Expr} (h : node.map Expr.bare = node'.map Expr.bare)
    (cause : ResolutionCause) : (callFault node cause).bare = (callFault node' cause).bare := by
  simp [callFault, Fault.bare, ResolutionError.bare, h]

/-- Calls with another number of values than declared in both settings fail alike. -/
theorem call_mismatch_alike {w w' : Setting} {printsResults : Bool} {fuel : Nat}
    {node node' : Option Expr} {name : String} {values : List Float} {d d' : Declaration}
    (hnode : node.map Expr.bare = node'.map Expr.bare)
    (hp : w.program.declaration? name = some d) (hq : w'.program.declaration? name = some d')
    (hd : d'.prototype.arity = d.prototype.arity) (harity : d.prototype.arity ≠ values.length) :
    (call (w.evaluator printsResults) w.program (fuel + 1) node name values).Alike
      (call (w'.evaluator printsResults) w'.program (fuel + 1) node' name values) := by
  rw [call_mismatch hp harity, call_mismatch hq (hd ▸ harity), hd]
  exact .stop (callFault_bare hnode _)

/-- With some fuel evaluations are alike, if the trees are and the settings. -/
structure AlikeWithin (callable : String → Prop) (w w' : Setting) (printsResults : Bool)
    (fuel : Nat) : Prop where
  expression : ∀ {e e'}, e.Alike callable e' →
    (eval (w.evaluator printsResults) w.program fuel e).Alike
      (eval (w'.evaluator printsResults) w'.program fuel e')
  expressions : ∀ {es es'}, List.Forall₂ (Expr.Alike callable) es es' →
    (evalAll (w.evaluator printsResults) w.program fuel es).Alike
      (evalAll (w'.evaluator printsResults) w'.program fuel es')
  turn : ∀ {name stop stop' step step' body body'}, stop.Alike callable stop' →
    Option.Rel (Expr.Alike callable) step step' → body.Alike callable body' →
    (turn (w.evaluator printsResults) w.program fuel name stop step body).Alike
      (turn (w'.evaluator printsResults) w'.program fuel name stop' step' body')
  call : ∀ {node node' name values}, node.map Expr.bare = node'.map Expr.bare → callable name →
    (call (w.evaluator printsResults) w.program fuel node name values).Alike
      (call (w'.evaluator printsResults) w'.program fuel node' name values)
  perform : ∀ {routine routine'}, routine.Alike callable routine' →
    (perform (w.evaluator printsResults) w.program fuel routine).Alike
      (perform (w'.evaluator printsResults) w'.program fuel routine')

namespace AlikeWithin

variable {callable : String → Prop} {w w' : Setting} {printsResults : Bool} {fuel : Nat}

/-- Without fuel nothing ends. -/
theorem zero (callable : String → Prop) (w w' : Setting) (printsResults : Bool) :
    AlikeWithin callable w w' printsResults 0 := by
  constructor
  · intro e e' _ s
    cases e <;> cases e' <;> exact .outOfFuel
  · intro es es' _ s
    cases es <;> cases es' <;> exact .outOfFuel
  · intros
    exact fun _ => .outOfFuel
  · intros
    exact fun _ => .outOfFuel
  · intro routine routine' _ s
    cases routine <;> cases routine' <;> exact .outOfFuel

section

variable (within : AlikeWithin callable w w' printsResults fuel)

include within

/-- With more fuel evaluations of trees that are alike are. -/
theorem expression_succ {e e' : Expr} (h : e.Alike callable e') :
    (eval (w.evaluator printsResults) w.program (fuel + 1) e).Alike
      (eval (w'.evaluator printsResults) w'.program (fuel + 1) e') := by
  cases e with
  | number value span =>
    obtain ⟨_, rfl⟩ := h.number
    exact .refl _
  | var name span =>
    obtain ⟨_, rfl⟩ := h.var
    apply Action.Alike.bind (.refl _)
    intro s
    split
    · exact .refl _
    · exact .stop rfl
  | binary op left right span =>
    obtain ⟨_, _, _, rfl, hleft, hright⟩ := h.binary
    apply (within.expression hleft).bind
    intro x
    apply (within.expression hright).bind
    intro y
    exact .refl _
  | call name arguments span =>
    obtain ⟨hname, _, _, rfl, harguments⟩ := h.call
    apply (within.expressions harguments).bind
    intro values
    exact within.call (congrArg some h.bare) hname
  | cond condition consequent alternative span =>
    obtain ⟨_, _, _, _, rfl, hcondition, hconsequent, halternative⟩ := h.cond
    apply (within.expression hcondition).bind
    intro x
    split
    · exact within.expression hconsequent
    · exact within.expression halternative
  | loop name start stop step body span =>
    obtain ⟨_, _, _, _, _, rfl, hstart, hstop, hstep, hbody⟩ := h.loop
    apply (within.expression hstart).bind
    intro x
    exact (within.turn hstop hstep hbody).inFrame _

/-- With more fuel evaluations of lists of trees that are alike are. -/
theorem expressions_succ {es es' : List Expr} (h : List.Forall₂ (Expr.Alike callable) es es') :
    (evalAll (w.evaluator printsResults) w.program (fuel + 1) es).Alike
      (evalAll (w'.evaluator printsResults) w'.program (fuel + 1) es') := by
  cases h with
  | nil => exact .refl _
  | cons hfirst hothers =>
    apply (within.expression hfirst).bind
    intro x
    apply (within.expressions hothers).bind
    intro xs
    exact .refl _

/-- With more fuel turns of loops that are alike are. -/
theorem turn_succ {name : String} {stop stop' body body' : Expr} {step step' : Option Expr}
    (hstop : stop.Alike callable stop') (hstep : Option.Rel (Expr.Alike callable) step step')
    (hbody : body.Alike callable body') :
    (Evaluator.turn (w.evaluator printsResults) w.program (fuel + 1) name stop step body).Alike
      (Evaluator.turn (w'.evaluator printsResults) w'.program (fuel + 1) name stop' step' body') := by
  have hsize : (stepSize (w.evaluator printsResults) w.program fuel step).Alike
      (stepSize (w'.evaluator printsResults) w'.program fuel step') := by
    cases hstep with
    | none => exact .refl _
    | some hstep => exact within.expression hstep
  have hparts : (turnParts (w.evaluator printsResults) w.program fuel stop step body).Alike
      (turnParts (w'.evaluator printsResults) w'.program fuel stop' step' body') :=
    (within.expression hbody).bind fun _ => hsize.bind fun _ =>
      (within.expression hstop).bind fun _ => .refl _
  rw [turn_eq, turn_eq]
  apply hparts.bind
  intro parts
  apply Action.Alike.bind (.refl _)
  intro _
  split
  · exact within.turn hstop hstep hbody
  · exact .refl _

/-- With more fuel routines that are alike are carried out alike. -/
theorem perform_succ {routine routine' : Routine} (h : routine.Alike callable routine') :
    (Evaluator.perform (w.evaluator printsResults) w.program (fuel + 1) routine).Alike
      (Evaluator.perform (w'.evaluator printsResults) w'.program (fuel + 1) routine') := by
  cases h with
  | @done answer answer' h =>
    cases answer with
    | ok x =>
      cases answer' with
      | ok x' =>
        obtain rfl := Except.ok.inj h
        exact .refl _
      | error f' => cases h
    | error f =>
      cases answer' with
      | ok x' => cases h
      | error f' => exact .stop (Except.error.inj h)
  | call called h => exact (within.call rfl called).attempt fun r r' hr => within.perform (h r r' hr)
  | evaluate he h =>
    exact ((within.expression he).inScopes _).attempt fun r r' hr => within.perform (h r r' hr)

/-- With more fuel calls that differ in their places come to the same. -/
theorem call_succ (alike : w.Alike callable w') {node node' : Option Expr} {name : String}
    {values : List Float} (hnode : node.map Expr.bare = node'.map Expr.bare)
    (hname : callable name) :
    (Evaluator.call (w.evaluator printsResults) w.program (fuel + 1) node name values).Alike
      (Evaluator.call (w'.evaluator printsResults) w'.program (fuel + 1) node' name values) := by
  rcases declared_cases (alike.declared name hname) with ⟨hp, hq⟩ | ⟨f, f', hp, hq, hf⟩ |
    ⟨d, rank, d', rank', hp, hq, hd⟩
  · rw [call_undeclared hp, call_undeclared hq]
    exact .stop (callFault_bare hnode _)
  · have harity : f'.arity = f.arity := congrArg List.length (Prototype.eq_of_bare_eq hf).2.symm
    by_cases hvalues : f.arity = values.length
    · rw [call_foreign alike.built hp hvalues,
        call_foreign alike.built' hq (harity.trans hvalues), alike.added, harity]
      cases hadded : w.added.get? name with
      | some routine => exact within.perform (alike.blind name routine hadded values)
      | none => exact .refl _
    · exact call_mismatch_alike hnode hp hq harity hvalues
  · have hprototype : d.prototype.bare = d'.prototype.bare := congrArg Definition.prototype hd
    have hparams : d'.prototype.params = d.prototype.params :=
      (Prototype.eq_of_bare_eq hprototype).2.symm
    have harity : d'.prototype.arity = d.prototype.arity := congrArg List.length hparams
    by_cases hvalues : d.prototype.arity = values.length
    · have hbody : d.body.Alike callable d'.body :=
        ⟨congrArg Definition.body hd, alike.runsWithin.bodies name d rank hname hp⟩
      intro s
      rw [call_definition alike.built hp hvalues,
        call_definition alike.built' hq (harity.trans hvalues), alike.callLimit, hparams]
      split
      · exact .refl _
      · exact ((within.expression hbody).inScopes _).asCall s
    · exact call_mismatch_alike hnode hp hq harity hvalues

end

end AlikeWithin

section

variable {callable : String → Prop} {w w' : Setting} (alike : w.Alike callable w')
  (printsResults : Bool) (fuel : Nat)

include alike

/-- Whatever the fuel, evaluations in settings that are alike are. -/
theorem alikeWithin : AlikeWithin callable w w' printsResults fuel := by
  induction fuel with
  | zero => exact .zero callable w w' printsResults
  | succ fuel within =>
    constructor
    · exact within.expression_succ
    · exact within.expressions_succ
    · exact within.turn_succ
    · exact within.call_succ alike
    · exact within.perform_succ

/-- Formulas that are alike are evaluated one after the other alike. -/
theorem evaluateAll_alike {es es' : List Expr} (h : List.Forall₂ (Expr.Alike callable) es es') :
    ((w.evaluator printsResults).evaluateAll w.program fuel es).Alike
      ((w'.evaluator printsResults).evaluateAll w'.program fuel es') := by
  induction h with
  | nil => exact .refl _
  | cons hfirst hothers ih =>
    rw [evaluateAll_cons, evaluateAll_cons]
    apply Action.Alike.bind (((alikeWithin alike printsResults fuel).expression hfirst).inScopes _)
    intro x
    apply Action.Alike.bind (.refl _)
    intro _
    apply ih.bind
    intro xs
    exact .refl _

/-- Programs whose formulas are alike run alike. -/
theorem run_alike
    (h : w.program.expressions.map Expr.bare = w'.program.expressions.map Expr.bare) :
    ((w.evaluator printsResults).run w.program fuel).Alike
      ((w'.evaluator printsResults).run w'.program fuel) := by
  apply evaluateAll_alike alike
  rw [← Expr.bares_eq_map, ← Expr.bares_eq_map] at h
  apply Expr.Alike.list h
  rw [Expr.calleesAll_eq_flatMap, List.forall_mem_flatMap]
  exact alike.runsWithin.formulas

end

/-- Programs that declare the same and have the same formulas, all but for spans, run alike. -/
theorem run_alike_of_declared {p q : Program} (hp : p.Built) (hq : q.Built)
    (hdeclared : ∀ name, p.declared name = q.declared name)
    (hformulas : p.expressions.map Expr.bare = q.expressions.map Expr.bare)
    {added : NameTable (List Float → Routine)} (blind : Blind (fun _ => True) added)
    (callLimit : Int) (printsResults : Bool) (fuel : Nat) :
    ((ofProgram p added callLimit printsResults).run p fuel).Alike
      ((ofProgram q added callLimit printsResults).run q fuel) := by
  let w : Setting := { program := p, added, callLimit }
  let w' : Setting := { program := q, added, callLimit }
  have halike : w.Alike (fun _ => True) w' :=
    { built := hp
      built' := hq
      runsWithin := ⟨fun _ _ _ _ => trivial, fun _ _ _ _ _ _ _ => trivial⟩
      declared := fun name _ => hdeclared name
      added := rfl
      blind
      callLimit := rfl }
  exact run_alike halike printsResults fuel hformulas

end Evaluator

end Formulary
