import Formulary.Proofs.Evaluation.Active
import Formulary.Proofs.Grammar.Nodes

/-!
# Programs without loops

Without loops a run always ends. Calls of defined functions may go in circles, but only as deep as
the limit on calls under way lets them, and on each level of calls only the nodes of one body are
evaluated. So the depth of an evaluation is bounded by the nodes of the expression and, for every
level that remains under the limit, the nodes of the bodies (`Program.depth`).

`EndAlike` is what the induction carries: with fuel for that depth an action ends, and ends in the
same way with more, and it leaves as many calls under way as there were, so that the levels which
remain are the same afterwards.
-/

namespace Formulary

open Evaluation

namespace Expr

/-- Is a node a loop? -/
def isLoop : Expr → Bool
  | loop .. => true
  | _ => false

/-- No node of a tree is a loop. -/
def LoopFree (e : Expr) : Prop := ∀ node ∈ e.preorder, node.isLoop = false

instance (e : Expr) : Decidable e.LoopFree :=
  inferInstanceAs (Decidable (∀ node ∈ e.preorder, node.isLoop = false))

/-- The parts of a tree without loops have none. -/
theorem LoopFree.part {e c : Expr} (h : e.LoopFree) (hc : c ∈ e.children) : c.LoopFree :=
  fun node hnode => h node (mem_preorder.mpr (.inr ⟨c, hc, hnode⟩))

/-- A loop is not free of loops. -/
theorem not_loopFree_loop {name : String} {start stop : Expr} {step : Option Expr} {body : Expr}
    {span : Option Span} : ¬ (loop name start stop step body span).LoopFree := by
  intro h
  have hself := h _ (mem_preorder_self _)
  contradiction

end Expr

/-- How deep the evaluation of a program without loops goes at most: through the nodes of its
top-level expressions, and through the nodes of its bodies on each level of calls. A node can count
twice, once for itself and once for the list of arguments it stands in. -/
def Program.depth (p : Program) (callLimit : Int) : Nat :=
  let bodies := Expr.sizes (p.definitions.map Definition.body)
  2 * (Expr.sizes p.expressions + callLimit.toNat * bodies) + 1

namespace Evaluation

variable {α β : Type}

/-- Begun with so many levels of calls left under a limit, two actions end alike, with as many calls
under way as there were. -/
def Action.EndAlike (limit : Int) (levels : Nat) (a b : Action α) : Prop :=
  ∀ s, limit ≤ s.activeCalls + levels → ∃ r after,
    a s = Outcome.ended r after ∧ b s = Outcome.ended r after ∧ after.activeCalls = s.activeCalls

namespace Action.EndAlike

variable {limit : Int} {levels : Nat} {a b : Action α} {f g : α → Action β}

/-- An action that reports ends like itself. -/
theorem of_report (h : ∀ s, ∃ out r, a s = Outcome.report s out r) : EndAlike limit levels a a := by
  intro s _
  obtain ⟨out, r, hreport⟩ := h s
  exact ⟨r, s.wrote out, hreport, hreport, rfl⟩

theorem pure (x : α) : EndAlike limit levels (Pure.pure x : Action α) (Pure.pure x) :=
  of_report fun s => ⟨_, _, Outcome.pure_eq_report x s⟩

theorem stop (e : Fault) : EndAlike limit levels (Action.stop e : Action α) (Action.stop e) :=
  of_report fun s => ⟨_, _, Outcome.stop_eq_report e s⟩

/-- One action after another. -/
theorem bind (h : EndAlike limit levels a b) (hf : ∀ x, EndAlike limit levels (f x) (g x)) :
    EndAlike limit levels (a >>= f) (b >>= g) := by
  intro s hs
  obtain ⟨r, mid, ha, hb, hmid⟩ := h s hs
  change ∃ r after, Action.bind a f s = _ ∧ Action.bind b g s = _ ∧ _
  rw [Action.bind, Action.bind, ha, hb]
  cases r with
  | ok x =>
    rw [← hmid] at hs ⊢
    exact hf x mid hs
  | error e => exact ⟨.error e, mid, rfl, rfl, hmid⟩

/-- Actions in scopes of their own. -/
theorem inScopes (scopes : List Frame) (h : EndAlike limit levels a b) :
    EndAlike limit levels (Action.inScopes scopes a) (Action.inScopes scopes b) := by
  intro s hs
  obtain ⟨r, after, ha, hb, hafter⟩ := h { s with scopes } hs
  refine ⟨r, { after with scopes := s.scopes }, ?_, ?_, hafter⟩
  · rw [Action.inScopes, ha]
    cases r <;> rfl
  · rw [Action.inScopes, hb]
    cases r <;> rfl

/-- A call takes a level for itself and gives it back. -/
theorem asCall (h : EndAlike limit levels a b) :
    EndAlike limit (levels + 1) (Action.asCall a) (Action.asCall b) := by
  intro s hs
  have hlevels : limit ≤ ((s.activeCalls + 1 : Nat) : Int) + levels := by
    rw [Nat.cast_add] at hs ⊢
    omega
  obtain ⟨r, after, ha, hb, hafter⟩ := h { s with activeCalls := s.activeCalls + 1 } hlevels
  have hback : after.activeCalls - 1 = s.activeCalls := by
    rw [hafter]
    exact Nat.add_sub_cancel _ _
  refine ⟨r, { after with activeCalls := after.activeCalls - 1 }, ?_, ?_, hback⟩
  · rw [Action.asCall, ha]
    cases r <;> rfl
  · rw [Action.asCall, hb]
    cases r <;> rfl

end Action.EndAlike

end Evaluation

namespace Evaluator

/-- The definition that a call runs is one of the program, if the evaluator knows no others. -/
theorem mem_of_definition? {ev : Evaluator} {p : Program} (hknown : ev.known = definitionsOf p)
    {name : String} {d : Definition} (h : ev.definition? p name = some d) : d ∈ p.definitions := by
  unfold definition? at h
  split at h
  · next _ rank d' knownRank _ hget =>
    split at h
    · obtain rfl := Option.some.inj h
      rw [hknown] at hget
      exact List.mem_of_getElem? (known_of_get? hget).1
    · contradiction
  · contradiction

/-- An evaluator with the standard functions alone, whose bodies have no loops and no more nodes
than a bound. -/
structure Bounded (ev : Evaluator) (p : Program) (bound : Nat) : Prop where
  added : ev.added = {}
  invoke : ev.invoke = Standard.invoke
  body : ∀ name d, ev.definition? p name = some d → d.body.LoopFree ∧ d.body.size ≤ bound

/-- Evaluation with some fuel ends, and ends in the same way with more, if the fuel is enough for
the nodes of the expression and for the bodies on all levels that remain. -/
structure EndsWithin (ev : Evaluator) (p : Program) (bound fuel : Nat) : Prop where
  expression : ∀ extra levels e, e.LoopFree → 2 * (e.size + levels * bound) ≤ fuel →
    Action.EndAlike ev.callLimit levels (eval ev p fuel e) (eval ev p (fuel + extra) e)
  expressions : ∀ extra levels es, (∀ e ∈ es, e.LoopFree) →
    2 * (Expr.sizes es + levels * bound) + 1 ≤ fuel →
    Action.EndAlike ev.callLimit levels (evalAll ev p fuel es) (evalAll ev p (fuel + extra) es)
  call : ∀ extra levels node name values, 2 * (levels * bound) + 1 ≤ fuel →
    Action.EndAlike ev.callLimit levels (call ev p fuel node name values)
      (call ev p (fuel + extra) node name values)

namespace EndsWithin

/-- No expression is so small that it needs no fuel. -/
theorem zero (ev : Evaluator) (p : Program) (bound : Nat) : EndsWithin ev p bound 0 := by
  constructor
  · intro extra levels e _ hfuel
    have hsize := e.size_pos
    omega
  · intro extra levels es _ hfuel
    omega
  · intro extra levels node name values hfuel
    omega

section

variable {ev : Evaluator} {p : Program} {bound fuel extra levels : Nat}
  (within : EndsWithin ev p bound fuel)

include within

theorem expression_succ {e : Expr} (he : e.LoopFree)
    (hfuel : 2 * (e.size + levels * bound) ≤ fuel + 1) :
    Action.EndAlike ev.callLimit levels (eval ev p (fuel + 1) e)
      (eval ev p (fuel + extra + 1) e) := by
  have part {c : Expr} (hc : c ∈ e.children) :
      Action.EndAlike ev.callLimit levels (eval ev p fuel c) (eval ev p (fuel + extra) c) := by
    have hsize := Expr.size_lt_of_mem_children hc
    exact within.expression extra levels c (he.part hc) (by omega)
  cases e with
  | number value span => exact .pure value
  | var name span => exact .of_report (eval_var_eq_report fuel)
  | binary op left right span =>
    apply Action.EndAlike.bind (part (by simp [Expr.children]))
    intro x
    apply Action.EndAlike.bind (part (by simp [Expr.children]))
    intro y
    exact .pure _
  | call name arguments span =>
    rw [Expr.size] at hfuel
    apply Action.EndAlike.bind
      (within.expressions extra levels arguments (fun a ha => he.part ha) (by omega))
    intro values
    exact within.call extra levels _ name values (by omega)
  | cond condition consequent alternative span =>
    apply Action.EndAlike.bind (part (by simp [Expr.children]))
    intro x
    split
    · exact part (by simp [Expr.children])
    · exact part (by simp [Expr.children])
  | loop name start stop step body span => exact absurd he Expr.not_loopFree_loop

theorem expressions_succ {es : List Expr} (hes : ∀ e ∈ es, e.LoopFree)
    (hfuel : 2 * (Expr.sizes es + levels * bound) + 1 ≤ fuel + 1) :
    Action.EndAlike ev.callLimit levels (evalAll ev p (fuel + 1) es)
      (evalAll ev p (fuel + extra + 1) es) := by
  cases es with
  | nil => exact .pure []
  | cons e rest =>
    obtain ⟨he, hrest⟩ := List.forall_mem_cons.mp hes
    have hsize := e.size_pos
    rw [Expr.sizes] at hfuel
    apply Action.EndAlike.bind (within.expression extra levels e he (by omega))
    intro x
    apply Action.EndAlike.bind (within.expressions extra levels rest hrest (by omega))
    intro xs
    exact .pure _

/-- A body that may begin has a level less left, and fuel enough for its own nodes. -/
theorem call_succ (bounded : Bounded ev p bound) (node : Option Expr) (name : String)
    (values : List Float) (hfuel : 2 * (levels * bound) + 1 ≤ fuel + 1) :
    Action.EndAlike ev.callLimit levels (Evaluator.call ev p (fuel + 1) node name values)
      (Evaluator.call ev p (fuel + extra + 1) node name values) := by
  cases htarget : ev.target p node name values with
  | body d scope =>
    obtain ⟨hbody, hsize⟩ := bounded.body name d (definition?_of_target htarget)
    intro s hs
    rw [call_body htarget, call_body htarget]
    split
    · exact Action.EndAlike.stop _ s hs
    · next hdeep =>
      cases levels with
      | zero => exact absurd (by simpa using hs) hdeep
      | succ levels =>
        rw [Nat.succ_mul levels] at hfuel
        have hends := within.expression extra levels d.body hbody (by omega)
        exact Action.EndAlike.asCall (.inScopes [scope] hends) s hs
  | fault f =>
    rw [Evaluator.call_succ, Evaluator.call_succ, htarget]
    exact .stop f
  | routine routine => exact absurd htarget (target_ne_routine bounded.added routine)
  | standard standard =>
    rw [Evaluator.call_succ, Evaluator.call_succ, htarget, bounded.invoke]
    exact .of_report fun s => ⟨_, _, standard.invoke_eq_report name values s⟩

end

end EndsWithin

theorem ends_within {ev : Evaluator} {p : Program} {bound : Nat} (bounded : Bounded ev p bound)
    (fuel : Nat) : EndsWithin ev p bound fuel := by
  induction fuel with
  | zero => exact .zero ev p bound
  | succ fuel within =>
    constructor
    · intro extra levels e he hfuel
      rw [Nat.add_right_comm]
      exact within.expression_succ he hfuel
    · intro extra levels es hes hfuel
      rw [Nat.add_right_comm]
      exact within.expressions_succ hes hfuel
    · intro extra levels node name values hfuel
      rw [Nat.add_right_comm]
      exact within.call_succ bounded node name values hfuel

/-- The evaluation of top-level expressions one after the other. -/
theorem evaluateAll_ends {ev : Evaluator} {p : Program} {bound : Nat} (bounded : Bounded ev p bound)
    {fuel levels : Nat} (extra : Nat) {es : List Expr} (hes : ∀ e ∈ es, e.LoopFree)
    (hfuel : 2 * (Expr.sizes es + levels * bound) + 1 ≤ fuel) :
    Action.EndAlike ev.callLimit levels (ev.evaluateAll p fuel es)
      (ev.evaluateAll p (fuel + extra) es) := by
  induction es with
  | nil => exact .pure []
  | cons e rest ih =>
    obtain ⟨he, hrest⟩ := List.forall_mem_cons.mp hes
    rw [Expr.sizes] at hfuel
    rw [evaluateAll_cons, evaluateAll_cons]
    have hends := (ends_within bounded fuel).expression extra levels e he (by omega)
    apply Action.EndAlike.bind (.inScopes _ hends)
    intro x
    apply Action.EndAlike.bind (.of_report fun s => ⟨_, _, writeResult_eq_report _ x s⟩)
    intro _
    apply Action.EndAlike.bind (ih hrest (by omega))
    intro xs
    exact .pure _

/-- The evaluator of a program knows no bodies but those of the program. -/
theorem bounded_ofProgram {p : Program} (hloops : ∀ d ∈ p.definitions, d.body.LoopFree)
    (callLimit : Int) (printsResults : Bool) :
    Bounded (ofProgram p {} callLimit printsResults) p
      (Expr.sizes (p.definitions.map Definition.body)) where
  added := rfl
  invoke := rfl
  body name d h := by
    have hmem := mem_of_definition? rfl h
    exact ⟨hloops d hmem, Expr.size_le_sizes (List.mem_map_of_mem hmem)⟩

/-- A program without loops always finishes. Whatever the limit on calls under way, and however the
definitions call each other, every run ends, with results or with an error, as soon as there is fuel
for the nodes of its expressions and, once for every level of calls under the limit, for the nodes
of its bodies. -/
theorem loop_free_run_ends {p : Program} (hdefinitions : ∀ d ∈ p.definitions, d.body.LoopFree)
    (hexpressions : ∀ e ∈ p.expressions, e.LoopFree) (callLimit : Int) (printsResults : Bool)
    (s : State) :
    ∃ r after, ∀ fuel, p.depth callLimit ≤ fuel →
      (ofProgram p {} callLimit printsResults).run p fuel s = Outcome.ended r after := by
  have bounded := bounded_ofProgram hdefinitions callLimit printsResults
  have hlevels : callLimit ≤ s.activeCalls + (callLimit.toNat : Int) := by omega
  have hends (extra : Nat) :=
    evaluateAll_ends bounded extra hexpressions (Nat.le_refl (p.depth callLimit)) s hlevels
  obtain ⟨r, after, hleast, _⟩ := hends 0
  refine ⟨r, after, fun fuel hfuel => ?_⟩
  obtain ⟨extra, rfl⟩ := Nat.exists_eq_add_of_le hfuel
  obtain ⟨r', after', hleast', hmore, _⟩ := hends extra
  obtain ⟨rfl, rfl⟩ := Outcome.ended_inj (hleast'.symm.trans hleast)
  exact hmore

/-- Two definitions that do nothing but call each other are stopped by the limit. -/
theorem mutual_recursion_ends :
    let p := Program.ofStatements [
      .definition ⟨⟨"ping", ["x"], none⟩, .call "pong" [.var "x" none] none⟩,
      .definition ⟨⟨"pong", ["x"], none⟩, .call "ping" [.var "x" none] none⟩,
      .expression (.call "ping" [.number 1.0 none] none)]
    (∀ d ∈ p.definitions, d.body.LoopFree) ∧ (∀ e ∈ p.expressions, e.LoopFree) ∧
      ∀ fuel, p.depth 3 ≤ fuel → ∃ after, (ofProgram p {} 3).run p fuel {} =
        Outcome.ended (.error (.failed (.callDepthExceeded "pong" 3))) after := by
  intro p
  have hdefinitions : ∀ d ∈ p.definitions, d.body.LoopFree := by decide
  have hexpressions : ∀ e ∈ p.expressions, e.LoopFree := by decide
  obtain ⟨r, after, hends⟩ := loop_free_run_ends hdefinitions hexpressions 3 false {}
  have hdepth : (ofProgram p {} 3).run p (p.depth 3) {} =
      Outcome.ended (.error (.failed (.callDepthExceeded "pong" 3))) {} := rfl
  obtain ⟨rfl, -⟩ := Outcome.ended_inj (hdepth.symm.trans (hends _ (Nat.le_refl _)))
  exact ⟨hdefinitions, hexpressions, fun fuel hfuel => ⟨after, hends fuel hfuel⟩⟩

end Evaluator

end Formulary
