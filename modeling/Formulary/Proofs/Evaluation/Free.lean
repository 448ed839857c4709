import Formulary.Proofs.Evaluation.Session
import Formulary.Proofs.Grammar.Nodes
import Mathlib.Data.List.Forall2

/-!
# What an evaluation depends on

An expression depends on the variables that occur free in it and on no others. A loop binds its
variable in its end, its step and its body, but not in its start. Two environments that agree on the
free names of an expression agree, inside the loops of it, on the free names of their parts; calls see
no environment at all. So the semantics gives the same in both, and so does evaluation, whose scopes are
what the environments stand for. For the same reason an expression whose free names are bound has no
unknown variable of its own: where one is reported, it is reported out of a call.
-/

namespace Formulary

open Evaluation

namespace Expr

mutual

/-- The names that occur free in a tree. -/
def free : Expr → List String
  | number _ _ => []
  | var name _ => [name]
  | binary _ left right _ => free left ++ free right
  | call _ arguments _ => frees arguments
  | cond condition consequent alternative _ =>
    free condition ++ (free consequent ++ free alternative)
  | loop name start stop none body _ =>
    free start ++ (free stop ++ free body).filter (· ≠ name)
  | loop name start stop (some step) body _ =>
    free start ++ (free stop ++ (free step ++ free body)).filter (· ≠ name)

/-- The names that occur free in the trees of a list. -/
def frees : List Expr → List String
  | [] => []
  | e :: rest => free e ++ frees rest

end

/-- The parts of a loop that are evaluated in each of its turns. -/
abbrev turnParts (stop : Expr) (step : Option Expr) (body : Expr) : List Expr :=
  [body, step.getD (.number 1.0 none), stop]

section

variable {name : String} {start stop body : Expr} {step : Option Expr} {span : Option Span}

/-- Free in a loop is what is free in its start, and what is free in the parts of a turn and is not its
variable. -/
theorem mem_free_loop {other : String} : other ∈ (loop name start stop step body span).free ↔
    other ∈ start.free ∨ other ∈ frees (turnParts stop step body) ∧ other ≠ name := by
  cases step <;>
  · simp only [free, frees, Option.getD_none, Option.getD_some, List.mem_append,
      List.mem_filter, List.append_nil, List.nil_append, decide_eq_true_eq]
    grind

/-- A call in the parts of a turn is a call in the loop. -/
theorem call_mem_loop {callee : String} {arguments : List Expr} {span' : Option Span}
    (h : .call callee arguments span' ∈ preorders (turnParts stop step body)) :
    .call callee arguments span' ∈ (loop name start stop step body span).preorder := by
  cases step <;>
  · simp only [preorders, Option.getD_none, Option.getD_some, preorder, List.append_nil,
      List.mem_append, List.mem_cons] at h ⊢
    grind

end

end Expr

/-- The fault of a variable that has no value. -/
def Fault.IsUnbound (f : Fault) : Prop := ∃ e name, f = .unresolved e ∧ e.cause = .unknownVariable name

namespace Evaluation

variable {w : Setting}

/-! ### Agreement on the free names -/

/-- Two environments say the same of some names. -/
def Env.Agree (names : List String) (env env' : Env) : Prop := ∀ name ∈ names, env name = env' name

namespace Env.Agree

variable {env env' : Env} {names more : List String} {name : String} {first stop body : Expr}
  {step : Option Expr} {span : Option Span}

theorem left (h : Agree (names ++ more) env env') : Agree names env env' :=
  fun name hname => h name (List.mem_append_left more hname)

theorem right (h : Agree (names ++ more) env env') : Agree more env env' :=
  fun name hname => h name (List.mem_append_right names hname)

/-- With the variable of a loop bound to the same value, environments that agree on the free names of
the loop agree on those of its turns. -/
theorem turn (h : Agree (Expr.loop name first stop step body span).free env env') (x : Float) :
    Agree (Expr.frees (Expr.turnParts stop step body)) (env.bind name x) (env'.bind name x) := by
  intro other hother
  unfold Env.bind
  split
  · rfl
  · next hne => exact h other (Expr.mem_free_loop.mpr (.inr ⟨hother, hne⟩))

/-- The start of a loop stands outside of it. -/
theorem start (h : Agree (Expr.loop name first stop step body span).free env env') :
    Agree first.free env env' :=
  fun other hother => h other (Expr.mem_free_loop.mpr (.inl hother))

end Env.Agree

mutual

/-- An expression means the same in environments that agree on its free names. -/
theorem Evaluates.of_agree {n : Nat} {env env' : Env} {e : Expr} {r : Except Fault Float}
    {out : String} (h : Evaluates w n env e r out) (hagree : env.Agree e.free env') :
    Evaluates w n env' e r out := by
  match h with
  | .number => exact .number
  | .var bound => exact .var ((hagree _ (List.mem_singleton_self _)).symm.trans bound)
  | .unbound free => exact .unbound ((hagree _ (List.mem_singleton_self _)).symm.trans free)
  | .binary operands => exact .binary (operands.of_agree (by simpa [Expr.frees, Expr.free] using hagree))
  | .binaryFault operands =>
    exact .binaryFault (operands.of_agree (by simpa [Expr.frees, Expr.free] using hagree))
  | .call given called => exact .call (given.of_agree hagree) called
  | .callFault given => exact .callFault (given.of_agree hagree)
  | .condTrue tested holds chosen =>
    exact .condTrue (tested.of_agree hagree.left) holds (chosen.of_agree hagree.right.left)
  | .condFalse tested fails chosen =>
    exact .condFalse (tested.of_agree hagree.left) fails (chosen.of_agree hagree.right.right)
  | .condFault tested => exact .condFault (tested.of_agree hagree.left)
  | .loop started turned => exact .loop (started.of_agree hagree.start) (turned.of_agree hagree.turn)
  | .loopFault started => exact .loopFault (started.of_agree hagree.start)

/-- So do the expressions of a list. -/
theorem EvaluatesAll.of_agree {n : Nat} {env env' : Env} {es : List Expr}
    {r : Except Fault (List Float)} {out : String} (h : EvaluatesAll w n env es r out)
    (hagree : env.Agree (Expr.frees es) env') : EvaluatesAll w n env' es r out := by
  match h with
  | .nil => exact .nil
  | .cons first others => exact .cons (first.of_agree hagree.left) (others.of_agree hagree.right)
  | .fault first => exact .fault (first.of_agree hagree.left)
  | .later first others => exact .later (first.of_agree hagree.left) (others.of_agree hagree.right)

/-- So do the turns of a loop, if the environments agree with the variable bound to any value. -/
theorem Turns.of_agree {n : Nat} {env env' : Env} {name : String} {stop : Expr}
    {step : Option Expr} {body : Expr} {x : Float} {r : Except Fault Float} {out : String}
    (h : Turns w n env name stop step body x r out)
    (hagree : ∀ x, (env.bind name x).Agree (Expr.frees (Expr.turnParts stop step body))
      (env'.bind name x)) : Turns w n env' name stop step body x r out := by
  match h with
  | .fault turn => exact .fault (turn.of_agree (hagree x))
  | .last turn ends => exact .last (turn.of_agree (hagree x)) ends
  | .next turn goes others => exact .next (turn.of_agree (hagree x)) goes (others.of_agree hagree)

end

/-! ### Unknown variables -/

/-- Some names have values. -/
def Env.Binds (names : List String) (env : Env) : Prop := ∀ name ∈ names, env name ≠ none

namespace Env.Binds

variable {env : Env} {names more : List String} {name : String} {first stop body : Expr}
  {step : Option Expr} {span : Option Span}

theorem left (h : Binds (names ++ more) env) : Binds names env :=
  fun name hname => h name (List.mem_append_left more hname)

theorem right (h : Binds (names ++ more) env) : Binds more env :=
  fun name hname => h name (List.mem_append_right names hname)

/-- In the turns of a loop its variable has a value, and the other free names have theirs. -/
theorem turn (h : Binds (Expr.loop name first stop step body span).free env) (x : Float) :
    Binds (Expr.frees (Expr.turnParts stop step body)) (env.bind name x) := by
  intro other hother
  unfold Env.bind
  split
  · exact Option.some_ne_none x
  · next hne => exact h other (Expr.mem_free_loop.mpr (.inr ⟨hother, hne⟩))

theorem start (h : Binds (Expr.loop name first stop step body span).free env) :
    Binds first.free env :=
  fun other hother => h other (Expr.mem_free_loop.mpr (.inl hother))

end Env.Binds

/-- More bindings, each of which hides others of the same name. -/
def Env.bindAll (env : Env) (bindings : List (String × Float)) : Env :=
  bindings.foldl (fun env b => env.bind b.1 b.2) env

/-- One of the nodes is a call that comes to the fault, with the values that its arguments have where
some variables of loops are bound besides. -/
def FailsInCall (w : Setting) (n : Nat) (env : Env) (nodes : List Expr) (f : Fault) : Prop :=
  ∃ name arguments span values inner before out, .call name arguments span ∈ nodes ∧
    EvaluatesAll w n (env.bindAll inner) arguments (.ok values) before ∧
    Calls w n (some (.call name arguments span)) name values (.error f) out

namespace FailsInCall

variable {n : Nat} {env : Env} {nodes others : List Expr} {f : Fault}

/-- The nodes may be among others. -/
theorem mono (h : FailsInCall w n env nodes f)
    (hsub : ∀ name arguments span, .call name arguments span ∈ nodes →
      .call name arguments span ∈ others) : FailsInCall w n env others f := by
  obtain ⟨name, arguments, span, values, inner, before, out, hnode, hrest⟩ := h
  exact ⟨name, arguments, span, values, inner, before, out, hsub _ _ _ hnode, hrest⟩

/-- A binding of the environment may be counted among those of loops. -/
theorem unbind {name : String} {x : Float} (h : FailsInCall w n (env.bind name x) nodes f) :
    FailsInCall w n env nodes f := by
  obtain ⟨callee, arguments, span, values, inner, hrest⟩ := h
  exact ⟨callee, arguments, span, values, (name, x) :: inner, hrest⟩

end FailsInCall

section

variable {f : Fault}

mutual

/-- An expression whose free names have values fails only where one of its calls does. -/
theorem Evaluates.failsInCall {n : Nat} {env : Env} {e : Expr} {r : Except Fault Float}
    {out : String} (h : Evaluates w n env e r out) (hr : r = .error f) (hbinds : env.Binds e.free) :
    FailsInCall w n env e.preorder f := by
  match h, hr with
  | .unbound free, _ => exact absurd free (hbinds _ (List.mem_singleton_self _))
  | .binaryFault operands, hr =>
    have hparts := operands.failsInCall (Except.error.inj hr ▸ rfl)
      (by simpa [Expr.frees, Expr.free] using hbinds)
    exact hparts.mono fun _ _ _ hcall => by simpa [Expr.preorders, Expr.preorder] using hcall
  | .call given called, hr =>
    exact ⟨_, _, _, _, [], _, _, Expr.mem_preorder_self _, given, hr ▸ called⟩
  | .callFault given, hr =>
    have hparts := given.failsInCall (Except.error.inj hr ▸ rfl) hbinds
    exact hparts.mono fun _ _ _ hcall => List.mem_cons_of_mem _ hcall
  | .condTrue tested holds chosen, hr =>
    have hpart := chosen.failsInCall hr hbinds.right.left
    exact hpart.mono fun _ _ _ hcall => by simp [Expr.preorder, hcall]
  | .condFalse tested fails chosen, hr =>
    have hpart := chosen.failsInCall hr hbinds.right.right
    exact hpart.mono fun _ _ _ hcall => by simp [Expr.preorder, hcall]
  | .condFault tested, hr =>
    have hpart := tested.failsInCall hr hbinds.left
    exact hpart.mono fun _ _ _ hcall => by simp [Expr.preorder, hcall]
  | .loop started turned, hr =>
    exact (turned.failsInCall hr hbinds.turn).mono fun _ _ _ => Expr.call_mem_loop
  | .loopFault started, hr =>
    have hpart := started.failsInCall hr hbinds.start
    exact hpart.mono fun _ _ _ hcall => Expr.mem_preorder.mpr (.inr ⟨_, List.mem_cons_self, hcall⟩)

/-- So do the expressions of a list. -/
theorem EvaluatesAll.failsInCall {n : Nat} {env : Env} {es : List Expr}
    {r : Except Fault (List Float)} {out : String} (h : EvaluatesAll w n env es r out)
    (hr : r = .error f) (hbinds : env.Binds (Expr.frees es)) :
    FailsInCall w n env (Expr.preorders es) f := by
  match h, hr with
  | .fault first, hr =>
    have hfirst := first.failsInCall (Except.error.inj hr ▸ rfl) hbinds.left
    exact hfirst.mono fun _ _ _ hcall => List.mem_append_left _ hcall
  | .later first others, hr =>
    have hothers := others.failsInCall (Except.error.inj hr ▸ rfl) hbinds.right
    exact hothers.mono fun _ _ _ hcall => List.mem_append_right _ hcall

/-- So do the turns of a loop, in which its variable has a value as well. -/
theorem Turns.failsInCall {n : Nat} {env : Env} {name : String} {stop : Expr}
    {step : Option Expr} {body : Expr} {x : Float} {r : Except Fault Float} {out : String}
    (h : Turns w n env name stop step body x r out) (hr : r = .error f)
    (hbinds : ∀ x, (env.bind name x).Binds (Expr.frees (Expr.turnParts stop step body))) :
    FailsInCall w n env (Expr.preorders (Expr.turnParts stop step body)) f := by
  match h, hr with
  | .fault turn, hr => exact (turn.failsInCall (Except.error.inj hr ▸ rfl) (hbinds x)).unbind
  | .next turn goes others, hr => exact others.failsInCall hr hbinds

end

/-- A standard function fails with an error of evaluation. -/
theorem Standard.effect_fault {standard : Standard} {name : String} {values : List Float}
    (h : (standard.effect name values).1 = .error f) : ∃ e, f = .failed e := by
  unfold Standard.effect at h
  split at h
  · cases h
  · cases h
  · cases h
  · split at h
    · cases h
    · exact ⟨_, (Except.error.inj h).symm⟩
  · exact ⟨_, (Except.error.inj h).symm⟩

/-- A call reports an unknown variable out of the body of a definition that it runs, or out of an added
routine that it performs. -/
theorem Calls.unbound_inside {n : Nat} {node : Option Expr} {name : String} {values : List Float}
    {r : Except Fault Float} {out : String} (h : Calls w n node name values r out)
    (hr : r = .error f) (hf : f.IsUnbound) :
    (∃ d rank, w.program.declaration? name = some (.definition d rank) ∧
      d.prototype.arity = values.length ∧ n < w.callLimit ∧
      Evaluates w (n + 1) (.ofBindings (d.prototype.params.zip values)) d.body (.error f) out) ∨
    ∃ q routine, w.program.declaration? name = some (.foreign q) ∧
      w.added.get? name = some routine ∧ Performs w n (routine values) (.error f) out := by
  obtain ⟨e, missing, rfl, hcause⟩ := hf
  cases h with
  | unknown undeclared =>
    cases hr
    contradiction
  | mismatch declared arity =>
    cases hr
    contradiction
  | tooDeep declared arity depth => cases hr
  | body declared arity depth run => exact .inl ⟨_, _, declared, arity, depth, hr ▸ run⟩
  | added declared arity found run => exact .inr ⟨_, _, declared, found, hr ▸ run⟩
  | standard declared arity found known own =>
    obtain ⟨_, hfailed⟩ := Standard.effect_fault hr
    cases hfailed
  | refused declared arity found known own => cases hr
  | unbound declared arity found known => cases hr

end

end Evaluation

namespace Evaluator

section

variable (ev : Evaluator) (p : Program) (s : State) (f : Fault)

/-- The call of a name with values runs the body of a definition, with the parameters as its only
variables and one more call under way, and the fault arises in there. -/
def FailsInBody (name : String) (values : List Float) : Prop :=
  ∃ d rank, p.declaration? name = some (.definition d rank) ∧ d.prototype.arity = values.length ∧
    s.activeCalls < ev.callLimit ∧ ∃ fuel after,
      ev.evaluate p fuel d.body (d.prototype.params.zip values)
        { s with activeCalls := s.activeCalls + 1 } = .fault f after

/-- The call of a name with values performs an added routine, and the fault arises in there. -/
def FailsInRoutine (name : String) (values : List Float) : Prop :=
  ∃ q routine, p.declaration? name = some (.foreign q) ∧ ev.added.get? name = some routine ∧
    ∃ fuel after, ev.perform p fuel (routine values) s = .fault f after

end

/-- Where expressions have values, each of them is evaluated to its own. -/
theorem evaluate_of_values {w : Setting} (hp : w.program.Built) (printsResults : Bool) {s : State}
    {bindings : List (String × Float)} {es : List Expr} {xs : List Float} {out : String}
    (h : EvaluatesAll w s.activeCalls (.ofBindings bindings) es (.ok xs) out) :
    List.Forall₂ (fun e x => ∃ fuel after,
      (w.evaluator printsResults).evaluate w.program fuel e bindings s = .value x after) es xs := by
  induction es generalizing xs out with
  | nil =>
    cases h
    exact .nil
  | cons e rest ih =>
    cases h with
    | cons first others =>
      obtain ⟨fuel, hended⟩ := ((computes_evaluate w hp printsResults e bindings).ended_iff
        (s := s) (.ok _) _).mpr ⟨_, rfl, first⟩
      exact .cons ⟨fuel, _, hended⟩ (ih others)

/-- Evaluation depends on the free names alone. With variables that have the same values for the names
that occur free in an expression, or none in both cases, its evaluation ends or does not end alike: with
the same value or error, the same text and the same state. And where every free name has a value, an
unknown variable is reported only from inside a call in the expression: from the body of a definition
that is called with what its arguments come to; or, which takes added functions, from what such a
function answers or has evaluated. -/
theorem evaluation_depends_on_free {p : Program} (hp : p.Built)
    (added : NameTable (List Float → Routine)) (callLimit : Int) (printsResults : Bool) (e : Expr)
    (bindings : List (String × Float)) (s : State) :
    let ev := ofProgram p added callLimit printsResults
    (∀ others, (∀ name ∈ e.free, Env.ofBindings bindings name = Env.ofBindings others name) →
      ∀ r after, (∃ fuel, ev.evaluate p fuel e bindings s = .ended r after) ↔
        ∃ fuel, ev.evaluate p fuel e others s = .ended r after) ∧
    ((∀ name ∈ e.free, Env.ofBindings bindings name ≠ none) →
      ∀ fuel f after, f.IsUnbound → ev.evaluate p fuel e bindings s = .fault f after →
        ∃ name arguments span values loops, .call name arguments span ∈ e.preorder ∧
          List.Forall₂ (fun a x => ∃ fuel after,
            ev.evaluate p fuel a (bindings ++ loops) s = .value x after) arguments values ∧
          (ev.FailsInBody p s f name values ∨ ev.FailsInRoutine p s f name values)) := by
  intro ev
  let w : Setting := { program := p, added, callLimit }
  have hcomputes (e : Expr) (bindings : List (String × Float)) (s : State) :
      Computes (fun fuel => ev.evaluate p fuel e bindings) s
        (Evaluates w s.activeCalls (.ofBindings bindings) e) :=
    computes_evaluate w hp printsResults e bindings
  constructor
  · intro others hagree r after
    rw [(hcomputes e bindings s).ended_iff, (hcomputes e others s).ended_iff]
    have hsame (out : String) : Evaluates w s.activeCalls (.ofBindings bindings) e r out ↔
        Evaluates w s.activeCalls (.ofBindings others) e r out :=
      ⟨fun h => h.of_agree hagree, fun h => h.of_agree fun name hname => (hagree name hname).symm⟩
    simp only [hsame]
  · intro hbinds fuel f after hf hfault
    obtain ⟨out, _, hmeans⟩ := ((hcomputes e bindings s).ended_iff (.error f) after).mp ⟨fuel, hfault⟩
    obtain ⟨name, arguments, span, values, loops, before, text, hnode, hgiven, hcalls⟩ :=
      hmeans.failsInCall rfl hbinds
    have henv : (Env.ofBindings bindings).bindAll loops = .ofBindings (bindings ++ loops) :=
      List.foldl_append.symm
    refine ⟨name, arguments, span, values, loops, hnode,
      evaluate_of_values (w := w) hp printsResults (henv ▸ hgiven), ?_⟩
    rcases hcalls.unbound_inside rfl hf with
      ⟨d, rank, declared, arity, depth, run⟩ | ⟨q, routine, declared, found, run⟩
    · obtain ⟨fuel, hended⟩ := ((hcomputes d.body (d.prototype.params.zip values)
        { s with activeCalls := s.activeCalls + 1 }).ended_iff (.error f) _).mpr ⟨text, rfl, run⟩
      exact .inl ⟨d, rank, declared, arity, depth, fuel, _, hended⟩
    · have hsettles : Settles (fun fuel => ev.perform p fuel (routine values)) s (.error f) text :=
        run.settles hp ⟨rfl, rfl⟩
      obtain ⟨fuel, hsettled⟩ := hsettles
      exact .inr ⟨q, routine, declared, found, fuel, _, hsettled fuel (Nat.le_refl fuel)⟩

/-- A variable of the caller is not seen in the body of a function: whether it has a value there or not,
the function does not find it. -/
theorem callers_variable_is_unknown :
    let d : Definition := ⟨⟨"f", ["x"], none⟩, .var "y" none⟩
    let p := Program.ofStatements [.definition d]
    let ev := ofProgram p
    let e : Expr := .call "f" [.var "a" none] none
    let f : Fault := .unresolved { cause := .unknownVariable "y", node := some (.var "y" none) }
    p.Built ∧ e.free = ["a"] ∧ ev.evaluate p 5 e [("a", 1.0)] {} = .fault f {} ∧
      (∃ fuel, ev.evaluate p fuel e [("y", 2.0), ("a", 1.0)] {} = .fault f {}) ∧
      ∃ name values, ev.FailsInBody p {} f name values ∨ ev.FailsInRoutine p {} f name values := by
  intro d p ev e f
  have hp : p.Built := Program.built_ofStatements _
  have hfault : ev.evaluate p 5 e [("a", 1.0)] {} = .fault f {} := rfl
  have hfree := evaluation_depends_on_free hp {} defaultCallLimit false e [("a", 1.0)] {}
  have hsame := (hfree.1 [("y", 2.0), ("a", 1.0)] (by
    intro name hname
    obtain rfl : name = "a" := List.mem_singleton.mp hname
    rfl) (.error f) {}).mp ⟨5, hfault⟩
  obtain ⟨name, _, _, values, _, _, _, hinside⟩ := hfree.2 (by
    intro name hname
    obtain rfl : name = "a" := List.mem_singleton.mp hname
    exact Option.some_ne_none _) 5 f {} ⟨_, _, rfl, rfl⟩ hfault
  exact ⟨hp, rfl, hfault, hsame, name, values, hinside⟩

end Evaluator

end Formulary
