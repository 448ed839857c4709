import Formulary.Proofs.Evaluation.Trace
import Mathlib.Algebra.Ring.Int.Defs
import Mathlib.Data.List.Induction

/-!
# Active bodies

The bodies that have begun and have not ended are active. The events of an evaluation say how many
there are at any time, whoever made the calls: an expression, or a routine that was itself called by
one. Each event may happen only with some numbers of active bodies (`Allows`), and every part of an
evaluation keeps to that and ends as many bodies as it begins (`Traced.Kept`). From a state without
a call under way a use of an evaluator therefore obeys its limit (`Use.obeys`).
-/

namespace Formulary

open Evaluation

namespace Evaluation

/-- What an event does to the number of active bodies. -/
def Event.change : Event → Int
  | begins _ => 1
  | ends => -1
  | refused _ => 0

/-- The number of bodies that begin and do not end. -/
def active (events : List Event) : Int := (events.map Event.change).sum

@[simp] theorem active_nil : active [] = 0 := rfl

@[simp] theorem active_cons (e : Event) (rest : List Event) :
    active (e :: rest) = e.change + active rest := by
  simp [active]

@[simp] theorem active_append (a b : List Event) : active (a ++ b) = active a + active b := by
  simp [active]

/-- The events of an evaluation that began with no body active obey a limit: never are more bodies
active than it allows, a body begins only where fewer are, and is refused only where as many are. -/
structure Obeys (limit : Int) (events : List Event) : Prop where
  nested : ∀ before after, events = before ++ after → 0 ≤ active before
  bound : ∀ before after, events = before ++ after → active before ≤ max limit 0
  begun : ∀ before d after, events = before ++ .begins d :: after → active before < max limit 0
  refused : ∀ before d after, events = before ++ .refused d :: after → active before = max limit 0

end Evaluation

namespace Evaluator

section

variable (ev : Evaluator) (p : Program)

/-- May an event happen with `n` bodies active, if `floor` of them are to stay so? The body of a
definition that the evaluator has for a name begins below the limit, and is refused from there on.
-/
def Allows (floor n : Int) : Event → Prop
  | .begins d => (∃ name, ev.definition? p name = some d) ∧ n < ev.callLimit
  | .ends => floor < n
  | .refused d => (∃ name, ev.definition? p name = some d) ∧ ev.callLimit ≤ n

/-- May all of the events happen, from `n` active bodies on? -/
def AllowsAll (floor n : Int) (events : List Event) : Prop :=
  ∀ before e after, events = before ++ e :: after → ev.Allows p floor (n + active before) e

variable {ev p} {floor n : Int}

theorem allowsAll_nil : ev.AllowsAll p floor n [] := by
  intro before e after h
  cases before <;> cases h

/-- The first event may happen, and the others may after it. -/
theorem allowsAll_cons {e : Event} {rest : List Event} :
    ev.AllowsAll p floor n (e :: rest) ↔
      ev.Allows p floor n e ∧ ev.AllowsAll p floor (n + e.change) rest := by
  constructor
  · intro h
    constructor
    · have hfirst := h [] e rest rfl
      rwa [active_nil, Int.add_zero] at hfirst
    · intro before e' after heq
      have hlater := h (e :: before) e' after (by rw [heq]; rfl)
      rwa [active_cons, ← Int.add_assoc] at hlater
  · rintro ⟨hfirst, hrest⟩ before e' after heq
    cases before with
    | nil =>
      cases heq
      rwa [active_nil, Int.add_zero]
    | cons e'' before =>
      cases heq
      rw [active_cons, ← Int.add_assoc]
      exact hrest before e' after rfl

/-- Events may happen one part after the other. -/
theorem allowsAll_append {a b : List Event} :
    ev.AllowsAll p floor n (a ++ b) ↔
      ev.AllowsAll p floor n a ∧ ev.AllowsAll p floor (n + active a) b := by
  induction a generalizing n with
  | nil => simp [allowsAll_nil]
  | cons e rest ih =>
    rw [List.cons_append, allowsAll_cons, ih, allowsAll_cons, active_cons, and_assoc, Int.add_assoc]

/-- Fewer bodies may be to stay active. -/
theorem AllowsAll.mono {floor' : Int} {events : List Event} (h : ev.AllowsAll p floor n events)
    (hle : floor' ≤ floor) : ev.AllowsAll p floor' n events := by
  intro before e after heq
  have he := h before e after heq
  cases e with
  | begins d => exact he
  | ends => exact Int.lt_of_le_of_lt hle he
  | refused d => exact he

/-- Events that may happen from no active body on obey the limit. -/
theorem AllowsAll.obeys {events : List Event} (h : ev.AllowsAll p 0 0 events) :
    Obeys ev.callLimit events := by
  have hrange (before after : List Event) (heq : events = before ++ after) :
      0 ≤ active before ∧ active before ≤ max ev.callLimit 0 := by
    induction before using List.reverseRecOn generalizing after with
    | nil => exact ⟨Int.le_refl 0, Int.le_max_right _ _⟩
    | append_singleton before e ih =>
      rw [List.append_assoc, List.singleton_append] at heq
      have hbefore := ih (e :: after) heq
      have he := h before e after heq
      rw [active_append, active_cons, active_nil]
      cases e <;> simp only [Allows, Event.change] at * <;> omega
  constructor
  · exact fun before after heq => (hrange before after heq).1
  · exact fun before after heq => (hrange before after heq).2
  · intro before d after heq
    have hlimit := (h before _ after heq).2
    omega
  · intro before d after heq
    have hlimit := (h before _ after heq).2
    have hbefore := hrange before _ heq
    omega

end

end Evaluator

namespace Evaluation.Traced

variable {ev : Evaluator} {p : Program} {α β γ : Type} {s s' : State}

/-- In a state an action keeps to what the evaluator allows, and when it ends no more bodies are
active than before, and no more calls under way. -/
structure Kept (ev : Evaluator) (p : Program) (t : Traced α) (s : State) : Prop where
  allowed : ev.AllowsAll p s.activeCalls s.activeCalls (t.events s)
  closed : ∀ r after, t.action s = Outcome.ended r after →
    after.activeCalls = s.activeCalls ∧ active (t.events s) = 0

namespace Kept

/-- An action without events need only leave the number of calls under way. -/
theorem quiet {a : Action α}
    (h : ∀ r after, a s = Outcome.ended r after → after.activeCalls = s.activeCalls) :
    (Traced.quiet a).Kept ev p s :=
  ⟨Evaluator.allowsAll_nil, fun r after hended => ⟨h r after hended, rfl⟩⟩

/-- An action without events that reports is kept. -/
theorem quiet_report {a : Action α} {out : String} {r : Except Fault α}
    (h : a s = Outcome.report s out r) : (Traced.quiet a).Kept ev p s := by
  apply quiet
  intro r' after hended
  rw [h] at hended
  obtain ⟨_, rfl⟩ := Outcome.ended_inj hended
  rfl

/-- Being out of fuel is. -/
theorem outOfFuel : (Traced.quiet (.outOfFuel : Action α)).Kept ev p s := by
  apply quiet
  intro r after hended
  exact absurd hended (Outcome.outOfFuel_ne_ended r after)

/-- So is a value. -/
theorem pure (x : α) : (Pure.pure x : Traced α).Kept ev p s :=
  quiet_report (Outcome.pure_eq_report x s)

/-- A body that begins is one that the evaluator runs for a name. -/
theorem definition?_of_begins {t : Traced α} (ht : t.Kept ev p s) {d : Definition}
    (h : .begins d ∈ t.events s) : ∃ name, ev.definition? p name = some d := by
  obtain ⟨before, after, hsplit⟩ := List.append_of_mem h
  exact (ht.allowed before _ after hsplit).1

/-- What has the events of another action and ends only if that does is kept with it. -/
theorem of_part {t : Traced α} {u : Traced β} (ht : t.Kept ev p s')
    (hcalls : s'.activeCalls = s.activeCalls) (hevents : u.events s = t.events s')
    (hended : ∀ r after, u.action s = Outcome.ended r after →
      ∃ r' after', t.action s' = Outcome.ended r' after' ∧ after.activeCalls = after'.activeCalls) :
    u.Kept ev p s := by
  constructor
  · rw [hevents, ← hcalls]
    exact ht.allowed
  · intro r after hu
    obtain ⟨r', after', ht', hafter⟩ := hended r after hu
    obtain ⟨hclosed, hactive⟩ := ht.closed r' after' ht'
    exact ⟨by rw [hafter, hclosed, hcalls], by rw [hevents, hactive]⟩

/-- What goes on as another action where one has ended is kept with the two. -/
theorem follow {t : Traced α} {u : Traced β} {v : Traced γ} {r : Except Fault α}
    (ht : t.Kept ev p s) (hended : t.action s = Outcome.ended r s') (hv : v.Kept ev p s')
    (hevents : u.events s = t.events s ++ v.events s') (haction : ∀ r' after,
      u.action s = Outcome.ended r' after → ∃ r'', v.action s' = Outcome.ended r'' after) :
    u.Kept ev p s := by
  obtain ⟨hcalls, hactive⟩ := ht.closed r s' hended
  constructor
  · rw [hevents, Evaluator.allowsAll_append, hactive, Int.add_zero, ← hcalls]
    exact ⟨hcalls ▸ ht.allowed, hv.allowed⟩
  · intro r' after hu
    obtain ⟨r'', hv'⟩ := haction r' after hu
    obtain ⟨hcalls', hactive'⟩ := hv.closed r'' after hv'
    exact ⟨hcalls'.trans hcalls, by rw [hevents, active_append, hactive, hactive', Int.add_zero]⟩

/-- What goes on after a value as after a fault is kept from there. -/
theorem attempt {t : Traced α} {next : Except Fault α → Traced β} (ht : t.Kept ev p s)
    (hnext : ∀ r after, t.action s = Outcome.ended r after → (next r).Kept ev p after) :
    (t.attempt next).Kept ev p s := by
  rcases Outcome.outOfFuel_or_ended (t.action s) with h | ⟨r, after, h⟩
  · refine ht.of_part rfl ?_ ?_
    · change t.events s ++ (t.action s).sequel _ = _
      rw [h]
      exact List.append_nil _
    · intro r last hended
      rw [attempt_action, Action.attempt, h] at hended
      exact absurd hended (Outcome.outOfFuel_ne_ended r last)
  · refine ht.follow h (hnext r after h) ?_ ?_
    · change t.events s ++ (t.action s).sequel _ = _
      rw [h, Outcome.sequel_ended]
    · intro r' last hended
      rw [attempt_action, Action.attempt, h] at hended
      cases r <;> exact ⟨r', hended⟩

/-- In a sequence the second action is kept from where the first has a value. -/
theorem bind {t : Traced α} {f : α → Traced β} (ht : t.Kept ev p s)
    (hf : ∀ x after, t.action s = .value x after → (f x).Kept ev p after) :
    (t >>= f).Kept ev p s := by
  rw [bind_eq_attempt]
  apply ht.attempt
  intro r after hended
  cases r with
  | ok x => exact hf x after hended
  | error e => exact quiet_report (Outcome.stop_eq_report e after)

/-- In other scopes an action is kept as it is there. -/
theorem inScopes {t : Traced α} {scopes : List Frame} (ht : t.Kept ev p { s with scopes }) :
    (t.inScopes scopes).Kept ev p s := by
  refine ht.of_part rfl rfl ?_
  intro r after hended
  obtain ⟨after', h, rfl⟩ := Outcome.ended_of_mapState hended
  exact ⟨r, after', h, rfl⟩

/-- In a new innermost scope as well. -/
theorem inFrame {t : Traced α} {frame : Frame} (ht : t.Kept ev p (s.inFrame frame)) :
    (t.inFrame frame).Kept ev p s := by
  refine ht.of_part rfl rfl ?_
  intro r after hended
  obtain ⟨after', h, rfl⟩ := Outcome.ended_of_mapState hended
  exact ⟨r, after', h, rfl⟩

/-- The body of a definition that the evaluator has is kept below the limit. -/
theorem asBody {t : Traced α} {d : Definition}
    (ht : t.Kept ev p { s with activeCalls := s.activeCalls + 1 })
    (hd : ∃ name, ev.definition? p name = some d) (hlimit : s.activeCalls < ev.callLimit) :
    (t.asBody d).Kept ev p s := by
  have hbody : ev.AllowsAll p s.activeCalls s.activeCalls
      (.begins d :: t.events { s with activeCalls := s.activeCalls + 1 }) :=
    Evaluator.allowsAll_cons.mpr ⟨⟨hd, hlimit⟩, ht.allowed.mono (Int.le_add_one (Int.le_refl _))⟩
  rcases Outcome.outOfFuel_or_ended (t.action { s with activeCalls := s.activeCalls + 1 })
    with h | ⟨r, after, h⟩
  · have hevents : (t.asBody d).events s =
        .begins d :: t.events { s with activeCalls := s.activeCalls + 1 } := by
      change _ ++ (t.action _).sequel _ = _
      rw [h]
      exact List.append_nil _
    constructor
    · rw [hevents]
      exact hbody
    · intro r after hended
      obtain ⟨after', h', rfl⟩ := Outcome.ended_of_mapState hended
      exact absurd (h.symm.trans h') (Outcome.outOfFuel_ne_ended r after')
  · obtain ⟨hcalls, hactive⟩ := ht.closed r after h
    have hevents : (t.asBody d).events s =
        .begins d :: t.events { s with activeCalls := s.activeCalls + 1 } ++ [.ends] := by
      change _ ++ (t.action _).sequel _ = _
      rw [h, Outcome.sequel_ended]
    constructor
    · rw [hevents, Evaluator.allowsAll_append]
      refine ⟨hbody, Evaluator.allowsAll_cons.mpr ⟨?_, Evaluator.allowsAll_nil⟩⟩
      rw [active_cons, hactive]
      exact Int.lt_succ _
    · intro r' after' hended
      obtain ⟨before, h', rfl⟩ := Outcome.ended_of_mapState hended
      obtain ⟨_, rfl⟩ := Outcome.ended_inj (h.symm.trans h')
      constructor
      · rw [hcalls]
        rfl
      · rw [hevents, active_append, active_cons, hactive]
        rfl

/-- A refusal is kept from the limit on. -/
theorem refuse {d : Definition} {f : Fault} (hd : ∃ name, ev.definition? p name = some d)
    (hlimit : ev.callLimit ≤ s.activeCalls) : (Traced.refuse d f : Traced α).Kept ev p s := by
  constructor
  · exact Evaluator.allowsAll_cons.mpr ⟨⟨hd, hlimit⟩, Evaluator.allowsAll_nil⟩
  · intro r after hended
    cases r <;> cases hended
    exact ⟨rfl, rfl⟩

end Kept

end Evaluation.Traced

namespace Evaluator

/-! ### Every part of an evaluation -/

/-- With some fuel evaluation is kept. -/
structure KeptWithin (ev : Evaluator) (p : Program) (fuel : Nat) : Prop where
  expression : ∀ e s, (evalTraced ev p fuel e).Kept ev p s
  expressions : ∀ es s, (evalAllTraced ev p fuel es).Kept ev p s
  turn : ∀ name stop step body s, (turnTraced ev p fuel name stop step body).Kept ev p s
  call : ∀ node name values s, (callTraced ev p fuel node name values).Kept ev p s
  perform : ∀ routine s, (performTraced ev p fuel routine).Kept ev p s

namespace KeptWithin

/-- Without fuel nothing happens. -/
theorem zero (ev : Evaluator) (p : Program) : KeptWithin ev p 0 := by
  constructor
  · intro e s
    cases e <;> exact .outOfFuel
  · intro es s
    cases es <;> exact .outOfFuel
  · intros
    exact .outOfFuel
  · intros
    exact .outOfFuel
  · intro routine s
    cases routine <;> exact .outOfFuel

variable {ev : Evaluator} {p : Program} {fuel : Nat}

section

variable (within : KeptWithin ev p fuel)

include within

theorem expression_succ (e : Expr) (s : State) : (evalTraced ev p (fuel + 1) e).Kept ev p s := by
  cases e with
  | number value span => exact .pure value
  | var name span =>
    obtain ⟨out, r, hreport⟩ : ∃ out r, eval ev p (fuel + 1) (.var name span) s =
      Outcome.report s out r := eval_var_eq_report fuel s
    exact .quiet_report hreport
  | binary op left right span =>
    apply Traced.Kept.bind (within.expression left s)
    intro x after _
    apply Traced.Kept.bind (within.expression right after)
    intro y after' _
    exact .pure _
  | call name arguments span =>
    apply Traced.Kept.bind (within.expressions arguments s)
    intro values after _
    exact within.call _ name values after
  | cond condition consequent alternative span =>
    apply Traced.Kept.bind (within.expression condition s)
    intro x after _
    split
    · exact within.expression consequent after
    · exact within.expression alternative after
  | loop name start stop step body span =>
    apply Traced.Kept.bind (within.expression start s)
    intro x after _
    exact .inFrame (within.turn name stop step body _)

theorem expressions_succ (es : List Expr) (s : State) :
    (evalAllTraced ev p (fuel + 1) es).Kept ev p s := by
  cases es with
  | nil => exact .pure []
  | cons e rest =>
    apply Traced.Kept.bind (within.expression e s)
    intro x after _
    apply Traced.Kept.bind (within.expressions rest after)
    intro xs after' _
    exact .pure _

theorem turn_succ (name : String) (stop : Expr) (step : Option Expr) (body : Expr) (s : State) :
    (turnTraced ev p (fuel + 1) name stop step body).Kept ev p s := by
  apply Traced.Kept.bind (within.expression body s)
  intro _ after _
  apply Traced.Kept.bind
  · cases step with
    | none => exact .pure _
    | some e => exact within.expression e after
  intro size after' _
  apply Traced.Kept.bind (within.expression stop after')
  intro goesOn after'' _
  have hincrease : (Traced.quiet (Action.increase name size)).Kept ev p after'' := by
    obtain ⟨scopes, hvalue⟩ := Action.increase_eq_value name size after''
    apply Traced.Kept.quiet
    intro r last hended
    rw [hvalue] at hended
    obtain ⟨_, rfl⟩ := Outcome.ended_inj (r := .ok ()) hended
    rfl
  apply Traced.Kept.bind hincrease
  intro _ last _
  split
  · exact within.turn name stop step body last
  · exact .pure _

theorem call_succ (hinvoke : ev.invoke = Standard.invoke) (node : Option Expr) (name : String)
    (values : List Float) (s : State) :
    (callTraced ev p (fuel + 1) node name values).Kept ev p s := by
  rw [callTraced]
  cases htarget : ev.target p node name values with
  | fault f => exact .quiet_report (Outcome.stop_eq_report f s)
  | body d scope =>
    have hd : ∃ name, ev.definition? p name = some d := ⟨name, definition?_of_target htarget⟩
    apply Traced.Kept.bind (.quiet_report (Outcome.state_eq_report s))
    intro s' after hstate
    cases hstate
    split
    · next hlimit => exact .refuse hd hlimit
    · next hlimit =>
      exact .asBody (.inScopes (within.expression d.body _)) hd (Int.not_le.mp hlimit)
  | routine routine => exact within.perform routine s
  | standard standard =>
    rw [hinvoke]
    exact .quiet_report (standard.invoke_eq_report name values s)

theorem perform_succ (routine : Routine) (s : State) :
    (performTraced ev p (fuel + 1) routine).Kept ev p s := by
  cases routine with
  | done answer =>
    cases answer with
    | ok x => exact .pure x
    | error f => exact .quiet_report (Outcome.stop_eq_report f s)
  | call name arguments next =>
    apply Traced.Kept.attempt (within.call none name arguments s)
    intro r after _
    exact within.perform (next r) after
  | evaluate e bindings next =>
    apply Traced.Kept.attempt (.inScopes (within.expression e _))
    intro r after _
    exact within.perform (next r) after

end

end KeptWithin

/-- Evaluation is kept, whatever the fuel. -/
theorem kept_within (ev : Evaluator) (hinvoke : ev.invoke = Standard.invoke) (p : Program)
    (fuel : Nat) : KeptWithin ev p fuel := by
  induction fuel with
  | zero => exact .zero ev p
  | succ fuel within =>
    constructor
    · exact within.expression_succ
    · exact within.expressions_succ
    · exact within.turn_succ
    · exact within.call_succ hinvoke
    · exact within.perform_succ

section

variable (ev : Evaluator) (hinvoke : ev.invoke = Standard.invoke) (p : Program) (fuel : Nat)

include hinvoke

theorem evaluateAllTraced_kept (es : List Expr) (s : State) :
    (evaluateAllTraced ev p fuel es).Kept ev p s := by
  induction es generalizing s with
  | nil => exact .pure []
  | cons e rest ih =>
    apply Traced.Kept.bind (.inScopes ((kept_within ev hinvoke p fuel).expression e _))
    intro x after _
    apply Traced.Kept.bind (.quiet_report (writeResult_eq_report ev x after))
    intro _ after' _
    apply Traced.Kept.bind (ih after')
    intro xs last _
    exact .pure _

/-- A use of an evaluator is kept. -/
theorem Use.traced_kept (use : Use) (s : State) : (use.traced ev p fuel).Kept ev p s := by
  cases use with
  | run => exact evaluateAllTraced_kept ev hinvoke p fuel p.expressions s
  | evaluate e bindings =>
    apply Traced.Kept.bind (.inScopes ((kept_within ev hinvoke p fuel).expression e _))
    intro x after _
    exact .pure _
  | call name values =>
    apply Traced.Kept.bind ((kept_within ev hinvoke p fuel).call none name values s)
    intro x after _
    exact .pure _

/-- A use that begins with no call under way obeys the limit. -/
theorem Use.obeys (use : Use) {s : State} (hs : s.activeCalls = 0) :
    Obeys ev.callLimit ((use.traced ev p fuel).events s) := by
  have hallowed := (use.traced_kept ev hinvoke p fuel s).allowed
  rw [hs] at hallowed
  exact hallowed.obeys

end

end Evaluator

end Formulary
