import Formulary.Proofs.Stacked.Use

/-!
# One evaluator on a stack, many uses

An evaluator may be run, given expressions to evaluate and called, as often as one likes and after
errors too: after faults, after the stack has run out, after headroom was refused. Every use leaves the
evaluator with no use and no call under way and with the scopes that it found. Text, the name of the
body that began last and the notes of what happened are records, on which no use depends. A session
therefore consists of uses that come to what they come to on a new evaluator.
-/

namespace Formulary

open Evaluation

namespace Evaluation

variable {α : Type}

/-- From some fuel on, an action comes to a result and a text on a new evaluator. -/
def Stacked.Comes (q : Nat → Stacked α) (stack : Stack) (result : Except Halt α) (text : String) :
    Prop :=
  ∃ least last happened, ∀ fuel, least ≤ fuel →
    q fuel stack {} = (result, Machine.used {} text last happened)

/-- What expressions come to if each comes to something by itself, in order and up to the first that
is halted, with the texts of the results in between. -/
inductive OneAfterOther (P : Expr → Except Halt Float → String → Prop) (printsResults : Bool) :
    List Expr → Except Halt (List Float) → String → Prop where
  | nil : OneAfterOther P printsResults [] (.ok []) ""
  | halted {e rest why out} (first : P e (.error why) out) :
    OneAfterOther P printsResults (e :: rest) (.error why) out
  | next {e rest x r out more} (first : P e (.ok x) out)
    (others : OneAfterOther P printsResults rest r more) :
    OneAfterOther P printsResults (e :: rest) (r.map (x :: ·))
      (out ++ (resultText printsResults x ++ more))

/-- If what each comes to is reported, so is what they come to. -/
theorem OneAfterOther.reported {P Q : Expr → Except Halt Float → String → Prop}
    {printsResults : Bool} (limit : Int)
    (hPQ : ∀ e r out, P e r out → r ≠ .error .outOfFuel → ∃ name, Q e (reported name limit r) out)
    {es : List Expr} {r : Except Halt (List Float)} {out : String}
    (h : OneAfterOther P printsResults es r out) (hr : r ≠ .error .outOfFuel) :
    ∃ name, OneAfterOther Q printsResults es (Evaluation.reported name limit r) out := by
  induction h with
  | nil => exact ⟨"", .nil⟩
  | @halted e rest why out first =>
    obtain ⟨name, hQ⟩ := hPQ e _ out first (by simpa using hr)
    refine ⟨name, ?_⟩
    match why with
    | .fault f => exact .halted hQ
    | .stack .exhausted => exact .halted hQ
    | .stack .outOfRange => exact .halted hQ
    | .stack .notPositive => exact .halted hQ
    | .outOfFuel => exact absurd rfl hr
  | @next e rest x r out more first others ih =>
    obtain ⟨_, hQ⟩ := hPQ e _ out first (fun h => nomatch h)
    obtain ⟨name, hothers⟩ := ih (by cases r <;> simp_all [Except.map])
    refine ⟨name, ?_⟩
    rw [reported_map]
    exact .next hQ hothers

end Evaluation

namespace Evaluator

variable {α : Type} {frames : Frames} {ev : Evaluator} {p : Program}

/-- A use does not depend on the records. -/
theorem useOn_recorded (frames : Frames) (ev : Evaluator) {q : Stacked α} (hapart : q.Apart)
    {m : Machine} (hm : m.guards = 0) (stack : Stack) : ∃ result text, ∀ written lastCall log, ∃ last happened,
      useOn frames ev q stack (m.recorded written lastCall log) =
        (result, (m.recorded written lastCall log).used text last happened) := by
  by_cases granted : ev.Grants frames stack
  · obtain ⟨deeper, higher, hdeeper, hhigher⟩ := granted
    have hguards : m.entered.guards ≠ 0 := by simp [Machine.entered]
    obtain ⟨e, he⟩ := hapart.effective higher m.entered hguards
    have hscopes := hapart.scopes_eq hguards he
    refine ⟨reported (m.used e.text e.last e.events).culprit ev.callLimit e.result, e.text, ?_⟩
    intro written lastCall log
    exact ⟨e.last, e.events, useOn_granted (m := m.recorded written lastCall log) hdeeper hhigher hm
      (he.recorded written none log) hscopes⟩
  · obtain ⟨why, _, hrefused⟩ := useOn_refused granted
    refine ⟨.error why, "", fun written lastCall log => ?_⟩
    obtain ⟨last, huse⟩ := hrefused q (m := m.recorded written lastCall log) hm
    exact ⟨last, [], huse⟩

/-- What a use comes to with some fuel it comes to with more. -/
theorem useOn_comes {q : Nat → Stacked α} (hrefuelled : ∀ fuel, (q fuel).Refuelled (q (fuel + 1)))
    (hapart : ∀ fuel, (q fuel).Apart) {stack : Stack} {written : String} {lastCall : Option String}
    {log : List Event} {fuel : Nat} {result : Except Halt α} {text : String} {last : Option String}
    {happened : List Event}
    (huse : useOn frames ev (q fuel) stack (Machine.recorded {} written lastCall log) =
      (result, (Machine.recorded {} written lastCall log).used text last happened))
    (hended : result ≠ .error .outOfFuel) :
    Stacked.Comes (fun fuel => useOn frames ev (q fuel)) stack result text := by
  obtain ⟨result', text', hall⟩ :=
    useOn_recorded frames ev (hapart fuel) (m := {}) rfl stack
  obtain ⟨_, _, hhere⟩ := hall written lastCall log
  obtain ⟨rfl, hafter⟩ := Prod.mk.inj (huse.symm.trans hhere)
  obtain rfl : text = text' := by
    have houtput := congrArg (·.output) hafter
    simpa [Machine.used] using houtput
  obtain ⟨last₀, happened₀, hfresh⟩ := hall "" none []
  change useOn frames ev (q fuel) stack {} = _ at hfresh
  refine ⟨fuel, last₀, happened₀, fun fuel' hle => ?_⟩
  have hmore := Stacked.Refuelled.of_le (q := fun fuel => useOn frames ev (q fuel))
    (fun fuel => useOn_refuelled frames ev (hrefuelled fuel)) hle stack {}
  simp only [hfresh] at hmore
  exact hmore.resolve_left hended

/-- Within a use formulas come to what each comes to by itself, one after the other. -/
theorem evaluateAllOn_oneAfterOther (frames : Frames) (p : Program)
    (hinvoke : ev.invoke = Standard.invoke) (fuel : Nat)
    (stack : Stack) {m : Machine} (hguards : m.guards ≠ 0) (es : List Expr) :
    ∃ e, (evaluateAllOn frames ev p fuel es).Has stack m e ∧ e.scopes = m.scopes ∧
      OneAfterOther (fun formula r out => ∃ e', (enclosed frames ev p fuel formula).Has stack m e' ∧
        r = e'.result ∧ out = e'.text) ev.printsResults es e.result e.text := by
  induction es with
  | nil => exact ⟨_, .of_only fun _ => rfl, rfl, .nil⟩
  | cons formula rest ih =>
    rw [evaluateAllOn_cons]
    have happart : (enclosed frames ev p fuel formula []).Apart :=
      enclosed_apart hinvoke fuel formula []
    obtain ⟨e, he⟩ := happart.effective stack m hguards
    have hscopes := happart.scopes_eq hguards he
    cases hresult : e.result with
    | error why =>
      refine ⟨_, he.bind_halted hresult, hscopes, .halted ⟨e, he, hresult.symm, rfl⟩⟩
    | ok x =>
      obtain ⟨e', he', hscopes', hothers⟩ := ih
      have hwrite : (Stacked.lift (ev.writeResult x)).Has stack (e.after m)
          ⟨.ok (), m.scopes, none, resultText ev.printsResults x, []⟩ := by
        intro written lastCall log
        simp [Stacked.lift, writeResult_eq_report, Effect.after, Machine.recorded, State.wrote,
          Outcome.report, Outcome.ended, hscopes]
      have hrest := he'.recorded (m.output ++ e.text ++ resultText ev.printsResults x)
        (e.last.or m.lastCall) (e.events.reverse ++ m.events)
      refine ⟨e.append (Effect.append ⟨.ok (), m.scopes, none, resultText ev.printsResults x, []⟩
        ⟨e'.result.map (x :: ·), e'.scopes, e'.last, e'.text, e'.events⟩),
        he.bind hresult (hwrite.bind rfl ?_), hscopes',
        .next ⟨e, he, hresult.symm, rfl⟩ hothers⟩
      convert hrest.map (x :: ·) using 1
      simp [Effect.after, Machine.recorded, hscopes]

/-- A run is refused as the evaluation of every formula is, or it comes to what the formulas come to by
themselves, one after the other. Where the stack runs out it may report another name than a formula by
itself, since a body may have begun in an earlier formula. -/
theorem runOn_oneAfterOther (hinvoke : ev.invoke = Standard.invoke) {fuel : Nat} {stack : Stack}
    {result : Except Halt (List Float)} {text : String} {last : Option String}
    {happened : List Event}
    (hrun : runOn frames ev p fuel stack {} = (result, Machine.used {} text last happened))
    (hended : result ≠ .error .outOfFuel) :
    let P (e : Expr) := Stacked.Comes (fun fuel => evaluateOn frames ev p fuel e) stack
    (∃ why, result = .error why ∧ text = "" ∧ ∀ e, P e (.error why) "") ∨
      ∃ inner name name', result = reported name ev.callLimit inner ∧
        OneAfterOther P ev.printsResults p.expressions (reported name' ev.callLimit inner) text := by
  intro P
  have hcomes (e : Expr) {fuel : Nat} {r : Except Halt Float} {out : String} {last : Option String}
      {happened : List Event} (huse : useOn frames ev (enclosed frames ev p fuel e []) stack {} =
        (r, Machine.used {} out last happened)) (hr : r ≠ .error .outOfFuel) : P e r out :=
    useOn_comes (fun fuel => enclosed_refuelled fuel e [])
      (fun fuel => enclosed_apart hinvoke fuel e []) huse hr
  have htext {r : Except Halt (List Float)} {out : String} {last' : Option String}
      {happened' : List Event} (huse : runOn frames ev p fuel stack {} =
        (r, Machine.used {} out last' happened')) : result = r ∧ text = out := by
    obtain ⟨hresult, hafter⟩ := Prod.mk.inj (hrun.symm.trans huse)
    have houtput := congrArg (·.output) hafter
    exact ⟨hresult, by simpa [Machine.used] using houtput⟩
  by_cases granted : ev.Grants frames stack
  · right
    obtain ⟨deeper, higher, hdeeper, hhigher⟩ := granted
    obtain ⟨e, he, hscopes, hothers⟩ := evaluateAllOn_oneAfterOther frames p hinvoke fuel higher
      (m := Machine.entered {}) (by simp [Machine.entered]) p.expressions
    obtain ⟨rfl, rfl⟩ := htext (useOn_granted hdeeper hhigher (m := {}) rfl he hscopes)
    have hinner : e.result ≠ .error .outOfFuel := by
      rintro hresult
      rw [hresult] at hended
      exact hended rfl
    obtain ⟨name', hreported⟩ := hothers.reported (Q := P) ev.callLimit (by
      rintro formula r out ⟨e', he', rfl, rfl⟩ hr
      have hscopes' := (enclosed_apart hinvoke fuel formula []).scopes_eq (m := Machine.entered {})
        (by simp [Machine.entered]) he'
      exact ⟨_, hcomes formula (useOn_granted hdeeper hhigher rfl he' hscopes')
        (reported_ne_outOfFuel hr)⟩) hinner
    exact ⟨e.result, _, name', rfl, hreported⟩
  · left
    obtain ⟨why, hwhy, hrefused⟩ := useOn_refused granted
    obtain ⟨last', huse⟩ := hrefused (evaluateAllOn frames ev p fuel p.expressions) (m := {}) rfl
    obtain ⟨rfl, rfl⟩ := htext huse
    refine ⟨why, rfl, rfl, fun e => ?_⟩
    obtain ⟨last'', huse⟩ := hrefused (enclosed frames ev p fuel e []) (m := {}) rfl
    exact hcomes e huse (by rcases hwhy with ⟨_, rfl⟩ | ⟨_, _, rfl⟩ <;> simp)

/-- A use of an evaluator, with its result and the text that it wrote. -/
structure Step where
  use : Use
  result : Except Halt (List Float)
  text : String

/-- Uses of one evaluator that end, each as the one before it left the evaluator behind. -/
inductive Session (frames : Frames) (ev : Evaluator) (p : Program) (stack : Stack) :
    Machine → List Step → Machine → Prop where
  | nil {m} : Session frames ev p stack m [] m
  | cons {m use fuel result after text rest last}
    (performed : use.performOn frames ev p fuel stack m = (result, after))
    (ended : result ≠ .error .outOfFuel) (written : after.output = m.output ++ text)
    (others : Session frames ev p stack after rest last) :
    Session frames ev p stack m (⟨use, result, text⟩ :: rest) last

/-- A session changes nothing but the records, and its uses come to what they come to on a new
evaluator. -/
theorem Session.comes (hinvoke : ev.invoke = Standard.invoke) {stack : Stack} {m last : Machine}
    {steps : List Step} (session : Session frames ev p stack m steps last) (written : String)
    (lastCall : Option String) (log : List Event) (hm : m = Machine.recorded {} written lastCall log) :
    (∃ lastCall log, last = Machine.recorded {}
      (steps.foldl (fun output step => output ++ step.text) written) lastCall log) ∧
    ∀ step ∈ steps, Stacked.Comes (fun fuel => step.use.performOn frames ev p fuel) stack step.result
      step.text := by
  induction session generalizing written lastCall log with
  | nil => exact ⟨⟨lastCall, log, hm⟩, fun _ h => nomatch h⟩
  | @cons m use fuel result after text rest last performed ended output others ih =>
    obtain rfl := hm
    have hapart (fuel : Nat) : (use.within frames ev p fuel).Apart := use.within_apart hinvoke fuel
    simp only [use.performOn_eq] at performed
    obtain ⟨result', text', hall⟩ := useOn_recorded frames ev (hapart fuel) (m := {}) rfl stack
    obtain ⟨last', happened, huse⟩ := hall written lastCall log
    obtain ⟨rfl, rfl⟩ := Prod.mk.inj (performed.symm.trans huse)
    obtain rfl : text' = text := by simpa [Machine.used] using output
    have hcomes := useOn_comes (fun fuel => use.within_refuelled fuel) hapart performed ended
    obtain ⟨hlast, hrest⟩ := ih (written ++ text') last' (happened.reverse ++ log) rfl
    refine ⟨hlast, ?_⟩
    rw [List.forall_mem_cons]
    exact ⟨by simpa only [use.performOn_eq] using hcomes, hrest⟩

/-- No use of an evaluator leaves a trace for a later one. After any session, whatever errors there
were, nothing has changed but the records: no use and no call is under way, and the scopes are empty.
The output is longer by the texts of the uses; each use has come to what it comes to on a new evaluator;
and every further use, with whatever fuel, has the result and writes the text that it has and writes on
a new evaluator. A run is refused headroom where every formula is. Otherwise it comes to what the
formulas come to on new evaluators, one after the other and up to the first that ends with an error, and
keeps what was written before; only if the stack ran out may the error name another body. -/
theorem uses_leave_no_trace_on_stack {p : Program} (added : NameTable (List Float → Routine))
    (callLimit : Int) (printsResults : Bool) (frames : Frames) (stack : Stack) (start : String)
    (steps : List Step) (last : Machine)
    (session : Session frames (ofProgram p added callLimit printsResults) p stack
      (Machine.recorded {} start none []) steps last) :
    let ev := ofProgram p added callLimit printsResults
    let P (e : Expr) := Stacked.Comes (fun fuel => evaluateOn frames ev p fuel e) stack
    (∃ lastCall log, last = Machine.recorded {}
      (steps.foldl (fun output step => output ++ step.text) start) lastCall log) ∧
    (∀ step ∈ steps, Stacked.Comes (fun fuel => step.use.performOn frames ev p fuel) stack
      step.result step.text) ∧
    (∀ (use : Use) fuel, ∃ result text,
      (∃ lastCall happened,
        use.performOn frames ev p fuel stack last = (result, last.used text lastCall happened)) ∧
      ∃ lastCall happened, use.performOn frames ev p fuel stack {} =
        (result, Machine.used {} text lastCall happened)) ∧
    ∀ result text, Stacked.Comes (fun fuel => runOn frames ev p fuel) stack result text →
      result ≠ .error .outOfFuel →
      (∃ why, result = .error why ∧ text = "" ∧ ∀ e, P e (.error why) "") ∨
        ∃ inner name name', result = reported name callLimit inner ∧
          OneAfterOther P printsResults p.expressions (reported name' callLimit inner) text := by
  intro ev P
  have hinvoke : ev.invoke = Standard.invoke := rfl
  obtain ⟨hlast, hsteps⟩ := session.comes hinvoke start none [] rfl
  refine ⟨hlast, hsteps, ?_, ?_⟩
  · intro use fuel
    simp only [use.performOn_eq]
    have hapart : (use.within frames ev p fuel).Apart := use.within_apart hinvoke fuel
    obtain ⟨result, text, hall⟩ := useOn_recorded frames ev hapart (m := {}) rfl stack
    obtain ⟨lastCall, log, rfl⟩ := hlast
    exact ⟨result, text, hall _ lastCall log, hall "" none []⟩
  · rintro result text ⟨least, lastCall, happened, hrun⟩ hended
    exact runOn_oneAfterOther hinvoke (hrun least (Nat.le_refl least)) hended

/-- An evaluator on which the stack has run out evaluates what a new one does. -/
theorem used_after_running_out :
    let p := Program.ofStatements [.definition (deepRecursion 100)]
    let ev := ofProgram p {} 5
    let first := (Use.call "f" [4.0]).performOn .usual ev p 1000 .usual {}
    let second := (Use.call "f" [1.0]).performOn .usual ev p 1000 .usual first.2
    first.1 = .error (.fault (.failed (.callDepthExceeded "f" 5))) ∧
      second.1.toOption = some [100.0] ∧
      Stacked.Comes (fun fuel => (Use.call "f" [1.0]).performOn .usual ev p fuel) .usual second.1
        "" := by
  intro p ev first second
  have hfirst : first.1 = .error (.fault (.failed (.callDepthExceeded "f" 5))) :=
    eq_of_tooMany? (by decide +kernel)
  have hsecond : second.1.toOption = some [100.0] := by decide +kernel
  have hended : second.1 ≠ .error .outOfFuel := by
    intro h
    rw [h] at hsecond
    cases hsecond
  have houtrun : first.1 ≠ .error .outOfFuel := by simp [hfirst]
  have houtput : first.2.output = ({} : Machine).output ++ "" := by decide +kernel
  have houtput' : second.2.output = first.2.output ++ "" := by decide +kernel
  have session : Session .usual ev p .usual {}
      [⟨.call "f" [4.0], first.1, ""⟩, ⟨.call "f" [1.0], second.1, ""⟩] second.2 :=
    .cons (Prod.eta first).symm houtrun houtput
      (.cons (Prod.eta second).symm hended houtput' .nil)
  rw [show ({} : Machine) = Machine.recorded {} "" none [] from rfl] at session
  have hsteps := (uses_leave_no_trace_on_stack {} 5 false .usual .usual "" _ _ session).2.1
  simp only [List.forall_mem_cons] at hsteps
  exact ⟨hfirst, hsecond, hsteps.2.1⟩

/-- A run names the body that began last in any of its formulas: where `f(1)` is followed by a formula
that outruns the stack by itself and calls nothing, the error of the run names `f`. And a run is refused
headroom even if it has no formula to evaluate. -/
theorem run_names_earlier_body :
    let call : Expr := .call "f" [.number 1.0 none] none
    let deep := deepened 350 (.number 1.0 none)
    let p := Program.ofStatements [.definition ⟨⟨"f", ["x"], none⟩, .var "x" none⟩,
      .expression call, .expression deep]
    let ev := ofProgram p {} 3
    ((evaluateOn .usual ev p 400 call [] .usual {}).1.toOption = some 1.0 ∧
      (evaluateOn .usual ev p 400 deep [] .usual {}).1 =
        .error (.fault (.failed (.callDepthExceeded "<top level>" 3))) ∧
      (runOn .usual ev p 400 .usual {}).1 =
        .error (.fault (.failed (.callDepthExceeded "f" 3)))) ∧
    (runOn .usual (ofProgram (Program.ofStatements []) {} 1000000000) (Program.ofStatements []) 1
      .usual {}).1 = .error (.stack .outOfRange) := by
  intro call deep p ev
  refine ⟨⟨by decide +kernel, eq_of_tooMany? ?_, eq_of_tooMany? ?_⟩, rfl⟩
  · decide +kernel
  · decide +kernel

end Evaluator

end Formulary
