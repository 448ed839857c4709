import Formulary.Proofs.Stacked.Use

/-!
# Answers on a stack

What evaluation without a stack computes is a relation of results and texts. Evaluation on a stack
`Agrees` with it: it ends with a result and a text of the relation, or the stack runs out, and then
every text of the relation begins with what was written. A use from outside `Answers` in the same way,
where the error for too many calls stands for the stack that has run out, and besides it may be refused
its headroom. What the relation gives is never out of fuel in the end.
-/

namespace Formulary

open Evaluation

namespace Evaluation

variable {α : Type}

/-- An effect agrees with what a relation says of results and texts. -/
inductive Agrees (P : Except Fault α → String → Prop) (m : Machine) (e : Effect α) : Prop
  | ended {r} (result : e.result = r.mapError .fault) (means : P r e.text)
    (scopes : e.scopes = m.scopes)
  | outOfFuel (result : e.result = .error .outOfFuel)
  | exhausted (result : e.result = .error (.stack .exhausted))
    (first : ∀ r text, P r text → ∃ more, text = e.text ++ more)

/-- The value of an outcome, and all that was written. -/
def Outcome.answer? : Outcome α → Option (α × String)
  | .value x after => some (x, after.output)
  | _ => none

/-- A value that was reached is one of the relation. -/
theorem Computes.of_answer? {a : Nat → Action α} {s : State} {P : Except Fault α → String → Prop}
    (h : Computes a s P) (hs : s.output = "") {k : Nat} {x : α} {text : String}
    (hanswer : (a k s).answer? = some (x, text)) : P (.ok x) text := by
  cases houtcome : a k s with
  | value y after =>
    rw [houtcome] at hanswer
    obtain ⟨rfl, rfl⟩ := Prod.mk.inj (Option.some.inj hanswer)
    exact (h.of_ended (r := .ok y) houtcome (by rw [hs, String.empty_append])).2
  | fault f after =>
    rw [houtcome] at hanswer
    cases hanswer
  | outOfFuel =>
    rw [houtcome] at hanswer
    cases hanswer

/-- Actions that are cut, if at all, out of what computes a relation. -/
structure Stacked.Follows (q : Nat → Stacked α) (a : Nat → Action α) (t : Nat → Traced α) : Prop where
  cuts : ∀ fuel, (q fuel).Cuts (t fuel)
  action : ∀ fuel, (t fuel).action = a fuel
  refuelled : ∀ fuel, (q fuel).Refuelled (q (fuel + 1))

namespace Stacked.Follows

variable {q : Nat → Stacked α} {a : Nat → Action α} {t : Nat → Traced α} {m : Machine}
  {P : Except Fault α → String → Prop}

/-- Within a use they agree with the relation. -/
theorem agrees (h : Stacked.Follows q a t) (hcomputes : Computes a m.toState P)
    (hguards : m.guards ≠ 0) (fuel : Nat) (stack : Stack) :
    ∃ e, (q fuel).Has stack m e ∧ Agrees P m e := by
  have hcut (fuel : Nat) := h.cuts fuel stack m hguards
  simp only [h.action] at hcut
  obtain ⟨e, he, _, hcuts⟩ := hcut fuel
  refine ⟨e, he, ?_⟩
  cases hcuts with
  | ended outcome result scopes output =>
    obtain ⟨hafter, hP⟩ := hcomputes.of_ended outcome output
    exact .ended result hP (by rw [← scopes, hafter]; rfl)
  | outOfFuel _ result => exact .outOfFuel result
  | exhausted result =>
    refine .exhausted result fun r text hP => ?_
    -- With fuel enough for the relation the stack runs out in the same place.
    obtain ⟨least, hleast⟩ := hcomputes.complete r text hP
    obtain ⟨e', he', _, hcuts'⟩ := hcut (max fuel least)
    have heq : (e'.result, e'.after m) = (e.result, e.after m) := by
      rw [← he.eq, ← he'.eq]
      refine (Refuelled.of_le h.refuelled (Nat.le_max_left fuel least) stack m).resolve_left ?_
      simp [he.eq, result]
    obtain ⟨hresult, hafter⟩ := Prod.mk.inj heq
    have htext : e'.text = e.text := by
      have houtput := congrArg (·.output) hafter
      simpa [Effect.after] using houtput
    rw [result] at hresult
    cases hcuts' with
    | @ended r' _ _ result' =>
      rw [result'] at hresult
      cases r' <;> cases hresult
    | outOfFuel _ result' =>
      rw [result'] at hresult
      cases hresult
    | exhausted _ output =>
      obtain ⟨more, hmore⟩ := output r _ (hleast _ (Nat.le_max_right fuel least))
      refine ⟨more, ?_⟩
      rw [htext] at hmore
      simpa [State.wrote, String.append_assoc] using hmore

/-- What the relation gives has been reached with fuel enough. -/
theorem ends (h : Stacked.Follows q a t) (hcomputes : Computes a m.toState P)
    (hguards : m.guards ≠ 0) {r : Except Fault α} {text : String} (hP : P r text) :
    ∃ least, ∀ fuel, least ≤ fuel → ∀ stack e, (q fuel).Has stack m e →
      e.result ≠ .error .outOfFuel := by
  obtain ⟨least, hleast⟩ := hcomputes.complete r text hP
  refine ⟨least, fun fuel hfuel stack e he => ?_⟩
  obtain ⟨e', he', _, hcuts⟩ := h.cuts fuel stack m hguards
  rw [h.action, hleast fuel hfuel] at hcuts
  obtain rfl := he.unique he'
  cases hcuts with
  | @ended r' _ _ result =>
    rw [result]
    exact mapError_fault_ne_outOfFuel r'
  | outOfFuel outcome => exact absurd outcome.symm (Outcome.outOfFuel_ne_ended _ _)
  | exhausted result => simp [result]

end Stacked.Follows

end Evaluation

namespace Evaluator

variable {α : Type}

/-- What a use from outside answers, with the text that it wrote, where a relation says what it means:
a result of the relation, or the error for too many calls where the stack ran out, or it was refused
its headroom and did nothing. -/
inductive Answers (P : Except Fault α → String → Prop) (frames : Frames) (ev : Evaluator)
    (q : Stacked α) (stack : Stack) (m after : Machine) : Except Halt α → String → Prop
  | ended {r text} (means : P r text) : Answers P frames ev q stack m after (r.mapError .fault) text
  | outOfFuel {text} : Answers P frames ev q stack m after (.error .outOfFuel) text
  | tooDeep {text} (outruns : ev.Outruns frames q stack m)
    (first : ∀ r full, P r full → ∃ more, full = text ++ more) :
    Answers P frames ev q stack m after
      (.error (.fault (.failed (.callDepthExceeded after.culprit ev.callLimit)))) text
  | refused {why} (ungranted : ¬ ev.Grants frames stack) :
    Answers P frames ev q stack m after (.error (.stack why)) ""

variable {frames : Frames} {ev : Evaluator} {q : Nat → Stacked α} {a : Nat → Action α}
  {t : Nat → Traced α} {m : Machine} {P : Except Fault α → String → Prop}

/-- A use from outside is refused its headroom, or reports an effect that is cut, if at all, out of
what the action comes to without a stack. It leaves nothing else behind. -/
theorem useOn_cut (h : Stacked.Follows q a t) (hapart : ∀ fuel, (q fuel).Apart)
    (hm : m.guards = 0) (fuel : Nat) (stack : Stack) :
    (∃ why last, useOn frames ev (q fuel) stack m = (.error (.stack why), m.used "" last []) ∧
      ¬ ev.Grants frames stack ∧ ¬ ev.Outruns frames (q fuel) stack m) ∨
    ∃ e, useOn frames ev (q fuel) stack m =
        (reported (m.used e.text e.last e.events).culprit ev.callLimit e.result,
          m.used e.text e.last e.events) ∧
      active e.events = 0 ∧ Cut m (a fuel m.toState) ((t fuel).events m.toState) e ∧
      (e.result = .error (.stack .exhausted) ↔ ev.Outruns frames (q fuel) stack m) ∧
      (ev.Grants frames stack ∨ e.result = .error (.stack .exhausted)) := by
  have hguards : m.entered.guards ≠ 0 := by simp [Machine.entered]
  have hcuts (higher : Stack) : ∃ e, (q fuel).Has higher m.entered e ∧ active e.events = 0 ∧
      Cut m (a fuel m.toState) ((t fuel).events m.toState) e := by
    have hcut := h.cuts fuel higher m.entered hguards
    rw [h.action] at hcut
    obtain ⟨e, he, hactive, hcut⟩ := hcut
    exact ⟨e, he, hactive, hcut.congr rfl⟩
  rcases useOn_cases (hapart fuel) stack hm with hrefused | ⟨e, huse, horigin, houtruns⟩
  · exact .inl hrefused
  · right
    rcases horigin with ⟨⟨higher, he⟩, granted⟩ | rfl
    · obtain ⟨e', he', hactive, hcut⟩ := hcuts higher
      obtain rfl := he.unique he'
      exact ⟨e, huse, hactive, hcut, houtruns, .inl granted⟩
    · obtain ⟨_, _, hactive, hcut⟩ := hcuts stack
      exact ⟨_, huse, rfl, hcut.at_once hactive m, houtruns, .inr rfl⟩

/-- The result of a use from outside: it was refused its headroom, or made too many calls, or fuel was
wanting, or the result and what was written are those of the action without a stack. -/
theorem useOn_result (h : Stacked.Follows q a t) (hapart : ∀ fuel, (q fuel).Apart)
    (hm : m.guards = 0) (fuel : Nat) (stack : Stack) :
    (∃ why, (useOn frames ev (q fuel) stack m).1 = .error (.stack why) ∧ ¬ ev.Grants frames stack) ∨
    (∃ name n, (useOn frames ev (q fuel) stack m).1 =
      .error (.fault (.failed (.callDepthExceeded name n)))) ∨
    ((useOn frames ev (q fuel) stack m).1 = .error .outOfFuel ∧ a fuel m.toState = .outOfFuel) ∨
    ∃ r after, a fuel m.toState = Outcome.ended r after ∧
      (useOn frames ev (q fuel) stack m).1 = r.mapError .fault ∧
      (useOn frames ev (q fuel) stack m).2.output = after.output := by
  rcases @useOn_cut α frames ev q a t m h hapart hm fuel stack with
    ⟨why, last, huse, ungranted, _⟩ | ⟨e, huse, _, hcut, _⟩
  · rw [huse]
    exact .inl ⟨why, rfl, ungranted⟩
  · rw [huse]
    cases hcut with
    | @ended r after outcome result _ output =>
      refine .inr (.inr (.inr ⟨r, after, outcome, ?_, output.symm⟩))
      rw [reported_of_ne (by simp [result]), result]
    | outOfFuel outcome result =>
      rw [result]
      exact .inr (.inr (.inl ⟨rfl, outcome⟩))
    | exhausted result =>
      rw [result]
      exact .inr (.inl ⟨_, _, rfl⟩)

/-- A use from outside answers as the relation says. -/
theorem useOn_answers (h : Stacked.Follows q a t) (hapart : ∀ fuel, (q fuel).Apart)
    (hcomputes : Computes a m.toState P) (hm : m.guards = 0) (fuel : Nat) (stack : Stack) :
    ∃ result text last happened,
      useOn frames ev (q fuel) stack m = (result, m.used text last happened) ∧
      Answers P frames ev (q fuel) stack m (m.used text last happened) result text := by
  have hguards : m.entered.guards ≠ 0 := by simp [Machine.entered]
  rcases useOn_cases (hapart fuel) stack hm with
    ⟨why, last, huse, ungranted, _⟩ | ⟨e, huse, horigin, houtruns⟩
  · exact ⟨.error (.stack why), "", last, [], huse, .refused ungranted⟩
  · have hagrees : Agrees P m.entered e := by
      rcases horigin with ⟨⟨higher, he⟩, _⟩ | rfl
      · obtain ⟨e', he', hagrees⟩ := h.agrees (m := m.entered) hcomputes hguards fuel higher
        obtain rfl := he.unique he'
        exact hagrees
      · exact .exhausted rfl fun r text _ => ⟨text, String.empty_append.symm⟩
    refine ⟨_, e.text, e.last, e.events, huse, ?_⟩
    cases hagrees with
    | @ended r result means =>
      rw [reported_of_ne (by simp [result]), result]
      exact .ended means
    | outOfFuel result =>
      rw [result]
      exact .outOfFuel
    | exhausted result first =>
      rw [result]
      exact .tooDeep (houtruns.mp result) first

/-- What the relation gives is answered with fuel enough. -/
theorem useOn_ends (h : Stacked.Follows q a t) (hapart : ∀ fuel, (q fuel).Apart)
    (hcomputes : Computes a m.toState P) (hm : m.guards = 0) {r : Except Fault α} {text : String}
    (hP : P r text) : ∃ least, ∀ fuel, least ≤ fuel → ∀ stack,
      (useOn frames ev (q fuel) stack m).1 ≠ .error .outOfFuel := by
  have hguards : m.entered.guards ≠ 0 := by simp [Machine.entered]
  obtain ⟨least, hleast⟩ := h.ends (m := m.entered) hcomputes hguards hP
  refine ⟨least, fun fuel hfuel stack => ?_⟩
  rcases useOn_cases (hapart fuel) stack hm with
    ⟨why, last, huse, _⟩ | ⟨e, huse, horigin, _⟩
  · rw [huse]
    simp
  · rw [huse]
    apply reported_ne_outOfFuel
    rcases horigin with ⟨⟨higher, he⟩, _⟩ | rfl
    · exact hleast fuel hfuel higher e he
    · simp [Effect.only]

end Evaluator

end Formulary
