import Formulary.Proofs.Evaluation.Adequacy
import Formulary.Proofs.Evaluation.Dispatch

/-!
# A call is its body

How an evaluation goes depends on the limit on calls under way and on their number only through
their difference, the levels that remain; the limit itself is seen in an error for too many calls and
nowhere else. `Action.Moves` relates an action where some calls are under way to another one where
others are, and evaluation under one limit moves to evaluation under another wherever the same levels
remain.

So what a call does, wherever it stands, is what the body of its definition does by itself, with its
parameters alone in scope and one level less. The standard functions are the only ones from outside
here, since an added one could ask for the limit.
-/

namespace Formulary

open Evaluation

/-- A fault under another limit, which an error for too many calls reports. -/
def Fault.under (limit : Int) : Fault → Fault
  | .failed (.callDepthExceeded name _) => .failed (.callDepthExceeded name limit)
  | f => f

namespace Evaluation

variable {α β : Type}

/-- A state with another number of calls under way. -/
def State.atDepth (s : State) (n : Nat) : State := { s with activeCalls := n }

namespace Outcome

/-- An outcome under another limit. -/
def under (limit : Int) : Outcome α → Outcome α
  | .value a after => .value a after
  | .fault f after => .fault (f.under limit) after
  | .outOfFuel => .outOfFuel

/-- An outcome under another limit and with another number of calls under way. -/
def moved (limit : Int) (n : Nat) (o : Outcome α) : Outcome α :=
  Action.mapState (·.atDepth n) (o.under limit)

end Outcome

/-- The first action, begun with `m` calls under way, ends with as many; the second, begun in the
same state but with `n` calls under way, ends in the same way under its own limit. -/
structure Action.Moves (limit : Int) (m n : Nat) (low high : Action α) : Prop where
  outcome : ∀ s, s.activeCalls = m → high (s.atDepth n) = (low s).moved limit n
  balanced : ∀ s r after, s.activeCalls = m → low s = Outcome.ended r after →
    after.activeCalls = m

namespace Action.Moves

variable {limit : Int} {m n : Nat} {low high : Action α} {f g : α → Action β}

/-- What is reported whatever the limit and the calls under way. -/
theorem of_report {a : Action α} (h : ∀ s : State, ∃ out r,
    (∀ k, a (s.atDepth k) = Outcome.report (s.atDepth k) out r) ∧
      ∀ f, r = .error f → f.under limit = f) : a.Moves limit m n a := by
  constructor
  · intro s _
    obtain ⟨out, r, hreport, hr⟩ := h s
    have hlow : a s = Outcome.report s out r := hreport s.activeCalls
    rw [hreport, hlow]
    cases r with
    | ok x => rfl
    | error f =>
      have hf := hr f rfl
      simp only [Outcome.report, Outcome.ended, Outcome.moved, Outcome.under, Action.mapState, hf]
      rfl
  · intro s r after hs hended
    obtain ⟨out, r', hreport, _⟩ := h s
    have hlow : a s = Outcome.report s out r' := hreport s.activeCalls
    rw [hlow] at hended
    obtain ⟨_, rfl⟩ := Outcome.ended_inj hended
    exact hs

theorem pure (x : α) : (Pure.pure x : Action α).Moves limit m n (Pure.pure x) :=
  of_report fun _ => ⟨"", .ok x, fun _ => Outcome.pure_eq_report x _, fun _ h => nomatch h⟩

/-- A fault that is not for too many calls. -/
theorem stop {e : Fault} (he : e.under limit = e) :
    (Action.stop e : Action α).Moves limit m n (Action.stop e) :=
  of_report fun _ => ⟨"", .error e, fun _ => Outcome.stop_eq_report e _,
    fun _ h => Except.error.inj h ▸ he⟩

theorem outOfFuel : (Action.outOfFuel : Action α).Moves limit m n Action.outOfFuel :=
  ⟨fun _ _ => rfl, fun _ r after _ h => absurd h (Outcome.outOfFuel_ne_ended r after)⟩

theorem bind (ha : low.Moves limit m n high) (hf : ∀ x, (f x).Moves limit m n (g x)) :
    (low >>= f).Moves limit m n (high >>= g) := by
  constructor
  · intro s hs
    change Action.bind high g (s.atDepth n) = (Action.bind low f s).moved limit n
    unfold Action.bind
    rw [ha.outcome s hs]
    cases hlow : low s with
    | value x after =>
      have hafter := ha.balanced s (.ok x) after hs hlow
      exact (hf x).outcome after hafter
    | fault e after => rfl
    | outOfFuel => rfl
  · intro s r last hs hended
    rcases Outcome.ended_of_bind hended with ⟨x, after, hx, hlast⟩ | ⟨e, he, _⟩
    · exact (hf x).balanced after r last (ha.balanced s _ after hs hx) hlast
    · exact ha.balanced s _ last hs he

/-- An action that changes the state at its beginning and its end. -/
theorem mapState {m' n' : Nat} (enter : State → State) (leave : State → State → State)
    (henter : ∀ s, s.activeCalls = m →
      (enter s).activeCalls = m' ∧ enter (s.atDepth n) = (enter s).atDepth n')
    (hleave : ∀ s after, s.activeCalls = m → after.activeCalls = m' →
      (leave s after).activeCalls = m ∧
        leave (s.atDepth n) (after.atDepth n') = (leave s after).atDepth n)
    (ha : low.Moves limit m' n' high) :
    Action.Moves limit m n (fun s => Action.mapState (leave s) (low (enter s)))
      fun s => Action.mapState (leave s) (high (enter s)) := by
  constructor
  · intro s hs
    obtain ⟨hm', henter'⟩ := henter s hs
    simp only [henter', ha.outcome _ hm']
    cases hlow : low (enter s) with
    | value x after =>
      have hafter := ha.balanced _ (.ok x) after hm' hlow
      exact congrArg (Outcome.value x) (hleave s after hs hafter).2
    | fault e after =>
      have hafter := ha.balanced _ (.error e) after hm' hlow
      exact congrArg (Outcome.fault (e.under limit)) (hleave s after hs hafter).2
    | outOfFuel => rfl
  · intro s r last hs hended
    obtain ⟨after, hafter, rfl⟩ := Outcome.ended_of_mapState hended
    exact (hleave s after hs (ha.balanced _ r after (henter s hs).1 hafter)).1

theorem inScopes (scopes : List Frame) (ha : low.Moves limit m n high) :
    (Action.inScopes scopes low).Moves limit m n (Action.inScopes scopes high) :=
  mapState (fun s => { s with scopes }) (fun s after => { after with scopes := s.scopes })
    (fun _ hs => ⟨hs, rfl⟩) (fun _ _ _ hafter => ⟨hafter, rfl⟩) ha

theorem inFrame (frame : Frame) (ha : low.Moves limit m n high) :
    (Action.inFrame frame low).Moves limit m n (Action.inFrame frame high) :=
  mapState (fun s => { s with scopes := frame :: s.scopes })
    (fun _ after => { after with scopes := after.scopes.tail })
    (fun _ hs => ⟨hs, rfl⟩) (fun _ _ _ hafter => ⟨hafter, rfl⟩) ha

/-- One more call is under way in both. -/
theorem asCall (ha : low.Moves limit (m + 1) (n + 1) high) :
    (Action.asCall low).Moves limit m n (Action.asCall high) :=
  mapState (fun s => { s with activeCalls := s.activeCalls + 1 })
    (fun _ after => { after with activeCalls := after.activeCalls - 1 })
    (fun _ hs => ⟨congrArg (· + 1) hs, rfl⟩)
    (fun _ _ _ hafter => ⟨congrArg (· - 1) hafter, rfl⟩) ha

theorem increase (name : String) (step : Float) :
    (Action.increase name step).Moves limit m n (Action.increase name step) := by
  constructor
  · intro s _
    simp only [Action.increase, State.atDepth]
    split
    · rfl
    · split <;> rfl
  · intro s r after hs hended
    obtain ⟨scopes, hvalue⟩ := increase_eq_value name step s
    rw [hvalue] at hended
    obtain ⟨_, rfl⟩ := Outcome.ended_inj (r := .ok ()) hended
    exact hs

end Action.Moves

/-- No standard function fails for too many calls. -/
theorem Standard.under_effect {limit : Int} {standard : Standard} {name : String}
    {values : List Float} {f : Fault} (h : (standard.effect name values).1 = .error f) :
    f.under limit = f := by
  unfold Standard.effect at h
  grind [Fault.under]

end Evaluation

namespace Evaluator

/-- No call leads to an error for too many calls before anything runs. -/
theorem under_of_target {ev : Evaluator} {p : Program} {node : Option Expr} {name : String}
    {values : List Float} {f : Fault} {limit : Int} (h : ev.target p node name values = .fault f) :
    f.under limit = f := by
  unfold target outside at h
  grind [Fault.under, callFault]

/-- With some fuel, evaluation under a limit and under another one, wherever the same levels
remain. -/
structure MovesWithin (low high : Evaluator) (p : Program) (fuel : Nat) : Prop where
  expression : ∀ m n : Nat, low.callLimit - m = high.callLimit - n → ∀ e,
    (eval low p fuel e).Moves high.callLimit m n (eval high p fuel e)
  expressions : ∀ m n : Nat, low.callLimit - m = high.callLimit - n → ∀ es,
    (evalAll low p fuel es).Moves high.callLimit m n (evalAll high p fuel es)
  turn : ∀ m n : Nat, low.callLimit - m = high.callLimit - n → ∀ name stop step body,
    (turn low p fuel name stop step body).Moves high.callLimit m n
      (turn high p fuel name stop step body)
  call : ∀ m n : Nat, low.callLimit - m = high.callLimit - n → ∀ node name values,
    (call low p fuel node name values).Moves high.callLimit m n (call high p fuel node name values)

namespace MovesWithin

theorem zero (low high : Evaluator) (p : Program) : MovesWithin low high p 0 := by
  constructor
  · intro m n _ e
    cases e <;> exact .outOfFuel
  · intro m n _ es
    cases es <;> exact .outOfFuel
  · intros
    exact .outOfFuel
  · intros
    exact .outOfFuel

section

variable {low high : Evaluator} {p : Program} {fuel m n : Nat}
  (within : MovesWithin low high p fuel) (hlevel : low.callLimit - m = high.callLimit - n)

include within hlevel

theorem expression_succ (e : Expr) : (eval low p (fuel + 1) e).Moves high.callLimit m n
    (eval high p (fuel + 1) e) := by
  cases e with
  | number value span => exact .pure value
  | var name span =>
    -- what is looked up are the scopes, which are the same in both
    apply Action.Moves.of_report
    intro s
    cases h : s.env name with
    | some x =>
      exact ⟨"", .ok x, fun k => (eval_bound (s := s.atDepth k) h fuel).trans
        (Outcome.pure_eq_report x _), fun _ h => nomatch h⟩
    | none =>
      refine ⟨"", _, fun k => (eval_unbound (s := s.atDepth k) h fuel).trans
        (Outcome.stop_eq_report _ _), ?_⟩
      rintro _ ⟨⟩
      rfl
  | binary op left right span =>
    apply Action.Moves.bind (within.expression m n hlevel left)
    intro x
    apply Action.Moves.bind (within.expression m n hlevel right)
    intro y
    exact .pure _
  | call name arguments span =>
    apply Action.Moves.bind (within.expressions m n hlevel arguments)
    intro values
    exact within.call m n hlevel _ name values
  | cond condition consequent alternative span =>
    apply Action.Moves.bind (within.expression m n hlevel condition)
    intro x
    split
    · exact within.expression m n hlevel consequent
    · exact within.expression m n hlevel alternative
  | loop name start stop step body span =>
    apply Action.Moves.bind (within.expression m n hlevel start)
    intro x
    exact .inFrame _ (within.turn m n hlevel name stop step body)

theorem expressions_succ (es : List Expr) : (evalAll low p (fuel + 1) es).Moves high.callLimit m n
    (evalAll high p (fuel + 1) es) := by
  cases es with
  | nil => exact .pure []
  | cons e rest =>
    apply Action.Moves.bind (within.expression m n hlevel e)
    intro x
    apply Action.Moves.bind (within.expressions m n hlevel rest)
    intro xs
    exact .pure _

theorem turn_succ (name : String) (stop : Expr) (step : Option Expr) (body : Expr) :
    (Evaluator.turn low p (fuel + 1) name stop step body).Moves high.callLimit m n
      (Evaluator.turn high p (fuel + 1) name stop step body) := by
  rw [turn_eq, turn_eq]
  apply Action.Moves.bind
  · apply Action.Moves.bind (within.expression m n hlevel body)
    intro value
    apply Action.Moves.bind
    · cases step with
      | none => exact .pure _
      | some e => exact within.expression m n hlevel e
    intro size
    apply Action.Moves.bind (within.expression m n hlevel stop)
    intro goesOn
    exact .pure _
  intro parts
  apply Action.Moves.bind (.increase name parts.2.1)
  intro _
  split
  · exact within.turn m n hlevel name stop step body
  · exact .pure _

/-- A body begins in both or in neither. -/
theorem call_succ
    (htarget : ∀ node name values, low.target p node name values = high.target p node name values)
    (hinvoke : low.invoke = Standard.invoke ∧ high.invoke = Standard.invoke)
    (hadded : high.added = {}) (node : Option Expr) (name : String) (values : List Float) :
    (Evaluator.call low p (fuel + 1) node name values).Moves high.callLimit m n
      (Evaluator.call high p (fuel + 1) node name values) := by
  have hlow := htarget node name values
  cases hhigh : high.target p node name values with
  | body d scope =>
    rw [hhigh] at hlow
    have hbody := Action.Moves.asCall
      (.inScopes [scope] (within.expression (m + 1) (n + 1) (by omega) d.body))
    constructor
    · intro s hs
      rw [call_body hlow, call_body hhigh]
      by_cases hdeep : low.callLimit ≤ s.activeCalls
      · rw [if_pos hdeep, if_pos (by simp only [State.atDepth]; omega)]
        rfl
      · rw [if_neg hdeep, if_neg (by simp only [State.atDepth]; omega)]
        exact hbody.outcome s hs
    · intro s r after hs hended
      rw [call_body hlow] at hended
      split at hended
      · obtain ⟨_, rfl⟩ := Outcome.ended_inj (r := .error _) hended
        exact hs
      · exact hbody.balanced s r after hs hended
  | fault f =>
    rw [Evaluator.call_succ, Evaluator.call_succ, hlow, hhigh]
    exact .stop (under_of_target hhigh)
  | routine routine => exact absurd hhigh (target_ne_routine hadded routine)
  | standard standard =>
    rw [Evaluator.call_succ, Evaluator.call_succ, hlow, hhigh, hinvoke.1, hinvoke.2]
    exact .of_report fun s => ⟨_, _, fun k => standard.invoke_eq_report name values _,
      fun _ => Standard.under_effect⟩

end

end MovesWithin

/-- Evaluation under a limit and under another one, whatever the fuel. -/
theorem moves_within (p : Program) (limit limit' : Int) (printsResults : Bool) (fuel : Nat) :
    MovesWithin (ofProgram p {} limit printsResults) (ofProgram p {} limit' printsResults) p
      fuel := by
  induction fuel with
  | zero => exact .zero _ _ p
  | succ fuel within =>
    constructor
    · intro m n hlevel e
      exact within.expression_succ hlevel e
    · intro m n hlevel es
      exact within.expressions_succ hlevel es
    · intro m n hlevel name stop step body
      exact within.turn_succ hlevel name stop step body
    · intro m n hlevel node name values
      exact within.call_succ hlevel (fun _ _ _ => rfl) ⟨rfl, rfl⟩ rfl node name values

section

variable {p : Program} {name : String} {d : Definition} {rank : Nat} {values : List Float}
  {limit : Int} {printsResults : Bool} {s : State}

/-- A call of a definition in force, below the limit, does what its body does by itself with the
levels that remain; only its output is seen in the state afterwards. -/
theorem call_eq_evaluate (hp : p.Built)
    (declared : p.declaration? name = some (.definition d rank))
    (arity : d.prototype.arity = values.length) (room : (s.activeCalls : Int) < limit)
    (fuel : Nat) (node : Option Expr) :
    call (ofProgram p {} limit printsResults) p (fuel + 1) node name values s =
      Action.mapState (fun last => { s with output := last.output })
        ((evaluate (ofProgram p {} (limit - s.activeCalls - 1) printsResults) p fuel d.body
          (d.prototype.params.zip values) { output := s.output }).under limit) := by
  have htarget : (ofProgram p {} limit printsResults).target p node name values =
      .body d (.ofList (d.prototype.params.zip values)) := target_definition hp declared arity
  -- the body begins in the same scope, with one more call under way in one case than in the other
  have hmoves := (moves_within p (limit - s.activeCalls - 1) limit printsResults fuel).expression 0
    (s.activeCalls + 1) (by simp only [ofProgram]; omega) d.body
  have hbody := hmoves.outcome
    { scopes := [.ofList (d.prototype.params.zip values)], output := s.output } rfl
  have hroom : ¬ (ofProgram p {} limit printsResults).callLimit ≤ s.activeCalls :=
    Int.not_le.mpr room
  rw [call_body htarget, if_neg hroom]
  change Action.mapState _ (Action.mapState _ (eval _ p fuel d.body _)) =
    Action.mapState _ (Outcome.under limit (Action.mapState _ (eval _ p fuel d.body _)))
  rw [State.atDepth] at hbody
  rw [hbody]
  cases eval (ofProgram p {} (limit - s.activeCalls - 1) printsResults) p fuel d.body
    { scopes := [.ofList (d.prototype.params.zip values)], output := s.output } <;> rfl

end

end Evaluator

end Formulary
