import Formulary.Proofs.Evaluation.CallBody
import Formulary.Proofs.Stacked.Meaning

/-!
# A call is its body, up to the stack

Without a stack a call does what the body of its definition does by itself, under the limit that
remains. On a stack both are cut, if at all, out of the same outcome, though not in the same place,
since a call and an evaluation take different frames and have different headroom. They are therefore
`Alike`: the same if the stack serves for both, and otherwise one writes what the other one begins
with.
-/

namespace Formulary

open Evaluation

namespace Evaluation

variable {α : Type}

/-- A halt under another limit, which an error for too many calls reports. -/
def Halt.under (limit : Int) : Halt → Halt
  | .fault f => .fault (f.under limit)
  | other => other

/-- Two evaluations do the same, but for the limit that the first reports, if the stack serves for
both. If it serves for one of them only, and that ends, then its text begins with that of the other.
-/
structure Alike (limit : Int) (served served' : Prop) (result result' : Except Halt α)
    (text text' : String) : Prop where
  same : served → served' → result = result'.mapError (·.under limit) ∧
    (result' ≠ .error .outOfFuel → text = text')
  shorter : ¬ served → served' → result' ≠ .error .outOfFuel → ∃ more, text' = text ++ more
  longer : served → ¬ served' → result ≠ .error .outOfFuel → ∃ more, text = text' ++ more

/-- What is cut out of an outcome, and out of the same outcome under another limit, is alike. -/
theorem Alike.of_cuts {m m' : Machine} {o o' : Outcome α} {events events' : List Event}
    {e e' : Effect α} {limit : Int} (h : Cut m o events e) (h' : Cut m' o' events' e')
    (hm : m'.output = m.output) (ho : o' = .outOfFuel → o = .outOfFuel)
    (hended : ∀ r after', o' = Outcome.ended r after' →
      ∃ after, o = Outcome.ended (r.mapError (·.under limit)) after ∧
        after.output = after'.output) :
    Alike limit (e.result ≠ .error (.stack .exhausted)) (e'.result ≠ .error (.stack .exhausted))
      e.result e'.result e.text e'.text := by
  have hserved {r : Except Fault α} {e : Effect α} (hresult : e.result = r.mapError .fault) :
      e.result ≠ .error (.stack .exhausted) := by
    rw [hresult]
    exact mapError_fault_ne_stack r .exhausted
  cases h with
  | ended outcome result scopes output =>
    rcases Outcome.outOfFuel_or_ended o' with hout | ⟨r', after', hended'⟩
    · rw [ho hout] at outcome
      exact absurd outcome (Outcome.outOfFuel_ne_ended _ _)
    obtain ⟨_, hboth, hafter⟩ := hended _ _ hended'
    obtain ⟨rfl, rfl⟩ := Outcome.ended_inj (outcome.symm.trans hboth)
    refine ⟨fun _ served' => ?_, fun hnot => absurd (hserved result) hnot, fun _ hnot _ => ?_⟩
    · cases h' with
      | ended outcome' result' scopes' output' =>
        obtain ⟨rfl, rfl⟩ := Outcome.ended_inj (hended'.symm.trans outcome')
        constructor
        · rw [result, result']
          cases r' <;> rfl
        · intro _
          rw [output, output', hm] at hafter
          simpa using hafter
      | outOfFuel outcome' =>
        exact absurd (outcome'.symm.trans hended') (Outcome.outOfFuel_ne_ended _ _)
      | exhausted result' => exact absurd result' served'
    · cases h' with
      | ended _ result' => exact absurd (hserved result') hnot
      | outOfFuel outcome' =>
        exact absurd (outcome'.symm.trans hended') (Outcome.outOfFuel_ne_ended _ _)
      | exhausted _ output' =>
        obtain ⟨more, hmore⟩ := output' _ _ hended'
        refine ⟨more, ?_⟩
        rw [output, hmore, hm] at hafter
        simpa [String.append_assoc] using hafter
  | outOfFuel outcome result =>
    refine ⟨fun _ served' => ?_, fun hnot => ?_, fun _ _ hended => absurd result hended⟩
    · cases h' with
      | ended outcome' =>
        obtain ⟨_, hboth, _⟩ := hended _ _ outcome'
        exact absurd (outcome.symm.trans hboth) (Outcome.outOfFuel_ne_ended _ _)
      | outOfFuel _ result' => exact ⟨by rw [result, result']; rfl, fun h => absurd result' h⟩
      | exhausted result' => exact absurd result' served'
    · exact absurd (by simp [result]) hnot
  | exhausted result output =>
    refine ⟨fun served => absurd result served, fun _ served' hended' => ?_,
      fun served => absurd result served⟩
    cases h' with
    | ended outcome' _ _ output' =>
      obtain ⟨_, hboth, hafter⟩ := hended _ _ outcome'
      obtain ⟨more, hmore⟩ := output _ _ hboth
      refine ⟨more, ?_⟩
      rw [hmore, output', hm] at hafter
      simpa [String.append_assoc] using hafter.symm
    | outOfFuel _ result' => exact absurd result' hended'
    | exhausted result' => exact absurd result' served'

/-- Evaluations are alike as what is reported of them where the stack serves. -/
theorem Alike.congr {limit : Int} {served served' also also' : Prop}
    {result result' final final' : Except Halt α} {text text' : String}
    (h : Alike limit served served' result result' text text') (hserved : also ↔ served)
    (hserved' : also' ↔ served') (hresult : served → final = result)
    (hresult' : served' → final' = result') : Alike limit also also' final final' text text' := by
  rw [← hserved] at hresult
  rw [← hserved'] at hresult'
  obtain ⟨same, shorter, longer⟩ := h
  rw [← hserved, ← hserved'] at same shorter
  rw [← hserved, ← hserved'] at longer
  constructor
  · intro hs hs'
    rw [hresult hs, hresult' hs']
    exact same hs hs'
  · intro hs hs'
    rw [hresult' hs']
    exact shorter hs hs'
  · intro hs hs'
    rw [hresult hs]
    exact longer hs hs'

end Evaluation

namespace Evaluator

/-- A use from outside has an effect, whatever was written before, that is cut, if at all, out of what
the action comes to without a stack, and which it has for a result if the stack serves. -/
theorem useOn_served {α : Type} {frames : Frames} {ev : Evaluator} {q : Nat → Stacked α}
    {a : Nat → Action α} {t : Nat → Traced α} {m : Machine} (h : Stacked.Follows q a t)
    (hapart : ∀ fuel, (q fuel).Apart) (hm : m.guards = 0) (fuel : Nat) (stack : Stack) :
    ∃ result last happened, ∃ e : Effect α,
      useOn frames ev (q fuel) stack m = (result, m.used e.text last happened) ∧
      (∀ written, Cut { m with output := written } (a fuel { m.toState with output := written })
        ((t fuel).events { m.toState with output := written }) e) ∧
      (ev.Serves frames (q fuel) stack m ↔ e.result ≠ .error (.stack .exhausted)) ∧
      (e.result ≠ .error (.stack .exhausted) → result = e.result) := by
  have hguards : m.entered.guards ≠ 0 := by simp [Machine.entered]
  have hcuts (higher : Stack) (written : String) :
      ∃ e, (q fuel).Has higher { m.entered with output := written } e ∧ active e.events = 0 ∧
        Cut { m with output := written } (a fuel { m.toState with output := written })
          ((t fuel).events { m.toState with output := written }) e := by
    have hcut := h.cuts fuel higher { m.entered with output := written } hguards
    rw [h.action] at hcut
    obtain ⟨e, he, hactive, hcut⟩ := hcut
    exact ⟨e, he, hactive, hcut.congr rfl⟩
  have hat_once (written : String) :
      Cut { m with output := written } (a fuel { m.toState with output := written })
        ((t fuel).events { m.toState with output := written })
        (.only (.error (.stack .exhausted)) m.entered) := by
    obtain ⟨_, _, hactive, hcut⟩ := hcuts stack written
    exact hcut.at_once hactive m.entered
  rcases useOn_cases (hapart fuel) stack hm with
    ⟨why, last, huse, ungranted, _⟩ | ⟨e, huse, horigin, houtruns⟩
  · exact ⟨.error (.stack why), last, [], .only (.error (.stack .exhausted)) m.entered, huse, hat_once,
      iff_of_false (fun hserves => ungranted hserves.1) (not_not_intro rfl),
      fun hnot => absurd rfl hnot⟩
  · have heffect : (∀ written,
        Cut { m with output := written } (a fuel { m.toState with output := written })
          ((t fuel).events { m.toState with output := written }) e) ∧
        (ev.Grants frames stack ∨ e.result = .error (.stack .exhausted)) := by
      rcases horigin with ⟨⟨higher, he⟩, granted⟩ | rfl
      · refine ⟨fun written => ?_, .inl granted⟩
        obtain ⟨e', he', _, hcut⟩ := hcuts higher written
        obtain rfl := (he.recorded written m.entered.lastCall m.entered.events).unique he'
        exact hcut
      · exact ⟨hat_once, .inr rfl⟩
    obtain ⟨hcut, hgranted⟩ := heffect
    refine ⟨_, e.last, e.events, e, huse, hcut, ?_, reported_of_ne⟩
    rw [Serves, ← houtruns]
    exact ⟨And.right, fun hnot => ⟨hgranted.resolve_right hnot, hnot⟩⟩

section

variable {p : Program} {name : String} {d : Definition} {rank : Nat} {values : List Float}
  {limit : Int} {printsResults : Bool} {s : State} (hp : p.Built)
  (declared : p.declaration? name = some (.definition d rank))
  (arity : d.prototype.arity = values.length) (hroom : (s.activeCalls : Int) < limit) (fuel : Nat)
  (node : Option Expr)

include hp declared arity hroom

/-- Where the body ends by itself the call ends, in the same way. -/
theorem call_ended {r : Except Fault Float} {after' : State}
    (hended : evaluate (ofProgram p {} (limit - s.activeCalls - 1) printsResults) p fuel d.body
      (d.prototype.params.zip values) { output := s.output } = Outcome.ended r after') :
    ∃ after, call (ofProgram p {} limit printsResults) p (fuel + 1) node name values s =
        Outcome.ended (r.mapError (·.under limit)) after ∧ after.output = after'.output := by
  rw [call_eq_evaluate hp declared arity hroom, hended]
  refine ⟨{ s with output := after'.output }, ?_, rfl⟩
  cases r <;> rfl

/-- Where the body is out of fuel the call is. -/
theorem call_outOfFuel
    (hout : evaluate (ofProgram p {} (limit - s.activeCalls - 1) printsResults) p fuel d.body
      (d.prototype.params.zip values) { output := s.output } = .outOfFuel) :
    call (ofProgram p {} limit printsResults) p (fuel + 1) node name values s = .outOfFuel := by
  rw [call_eq_evaluate hp declared arity hroom, hout]
  rfl

/-- So what is cut out of the call and what is cut out of the body by itself is alike. -/
theorem call_alike {m m' : Machine} {events events' : List Event} {e e' : Effect Float}
    (h : Cut m (call (ofProgram p {} limit printsResults) p (fuel + 1) node name values s) events e)
    (h' : Cut m' (evaluate (ofProgram p {} (limit - s.activeCalls - 1) printsResults) p fuel d.body
      (d.prototype.params.zip values) { output := s.output }) events' e')
    (hm : m'.output = m.output) :
    Alike limit (e.result ≠ .error (.stack .exhausted)) (e'.result ≠ .error (.stack .exhausted))
      e.result e'.result e.text e'.text :=
  .of_cuts h h' hm (call_outOfFuel hp declared arity hroom fuel node)
    fun _ _ => call_ended hp declared arity hroom fuel node

end

/-- Evaluating arguments leaves the scopes as they were. -/
theorem arguments_scopes {p : Program} (hp : p.Built) (limit : Int) (printsResults : Bool)
    (frames : Frames) (fuel : Nat) {stack : Stack} {m : Machine} (hguards : m.guards ≠ 0)
    {arguments : List Expr} {given : Effect (List Float)}
    (hgiven : (Stacked.under (frames .arguments)
      (evalAllOn frames (ofProgram p {} limit printsResults) p fuel arguments)).Has stack m given)
    {values : List Float} (hvalues : given.result = .ok values) : given.scopes = m.scopes := by
  have hinvoke : (ofProgram p {} limit printsResults).invoke = Standard.invoke := rfl
  obtain ⟨e, he, _, hcut⟩ := argumentsOn_cuts frames hinvoke p fuel arguments stack m hguards
  obtain rfl := hgiven.unique he
  rw [(erases_within _ p fuel).expressions] at hcut
  cases hcut with
  | @ended r after outcome _ scopes =>
    have hreports := (refines_within (w := { program := p, callLimit := limit }) hp printsResults
      fuel).expressions arguments m.toState
    rcases hreports with hout | ⟨r', out, hreport, _⟩
    · exact absurd (hout.symm.trans outcome) (Outcome.outOfFuel_ne_ended r after)
    · obtain ⟨_, rfl⟩ := Outcome.ended_inj (outcome.symm.trans hreport)
      exact scopes.symm
  | outOfFuel _ result =>
    rw [result] at hvalues
    cases hvalues
  | exhausted result =>
    rw [result] at hvalues
    cases hvalues

/-- The body by itself, on a new evaluator. -/
theorem evaluateOn_served (frames : Frames) {ev : Evaluator} (hinvoke : ev.invoke = Standard.invoke)
    (p : Program) (fuel : Nat) (e : Expr) (bindings : List (String × Float)) (stack : Stack) :
    ∃ result last happened, ∃ e' : Effect Float,
      evaluateOn frames ev p fuel e bindings stack {} =
        (result, Machine.used {} e'.text last happened) ∧
      (∀ written, ∃ events, Cut { output := written }
        (ev.evaluate p fuel e bindings { output := written }) events e') ∧
      (ev.Serves frames (enclosed frames ev p fuel e bindings) stack {} ↔
        e'.result ≠ .error (.stack .exhausted)) ∧
      (e'.result ≠ .error (.stack .exhausted) → result = e'.result) := by
  obtain ⟨result, last, happened, e', huse, hcut, hserves⟩ :=
    useOn_served (enclosed_follows frames hinvoke p e bindings)
      (fun fuel => enclosed_apart hinvoke fuel e bindings) (m := {}) rfl fuel stack
  exact ⟨result, last, happened, e', huse, fun written => ⟨_, hcut written⟩, hserves⟩

end Evaluator

end Formulary
