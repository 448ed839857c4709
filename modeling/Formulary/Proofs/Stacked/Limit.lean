import Formulary.Proofs.Stacked.Reentry
import Formulary.Proofs.Stacked.Session

/-!
# A higher limit on calls

A run under a limit and a run under a higher one, with the standard functions alone, are the same up to
the place where the first is stopped: because a body is refused, or because its stack, which has less
headroom, runs out. What the first has written by then the second writes first. But a limit can be too
high: then the system refuses the headroom for it, and there is no answer at all.
-/

namespace Formulary.Evaluator

open Evaluation

variable {α : Type} {frames : Frames} {low high : Evaluator} {p : Program}

/-- A halt that a higher limit may spare: the stack has run out, or a body was refused. -/
def Spares (limit : Int) (why : Halt) : Prop :=
  why = .stack .exhausted ∨ ∃ name, why = .fault (.failed (.callDepthExceeded name limit))

theorem raises_limit (frames : Frames) (p : Program) {limit limit' : Int} (hlimit : limit ≤ limit')
    (printsResults : Bool) : Raises (Spares limit) frames frames (ofProgram p {} limit printsResults)
      (ofProgram p {} limit' printsResults) where
  frames _ := Nat.le_refl _
  exhausted := .inl rfl
  known := rfl
  added := rfl
  invoke := ⟨rfl, rfl⟩
  prints := rfl
  limit := .inr ⟨hlimit, fun name => .inr ⟨name, rfl⟩⟩
  routines := .inr rfl

/-- Where the headroom for a limit is granted, the headroom for a higher one is granted too or out of
range. -/
theorem Grants.raised {stack : Stack} (h : low.Grants frames stack) (high : Evaluator)
    (hlimit : low.callLimit ≤ high.callLimit) : high.Grants frames stack ∨
      ∀ {α : Type} (q : Stacked α) (m : Machine), m.guards = 0 →
        (useOn frames high q stack m).1 = .error (.stack .outOfRange) := by
  obtain ⟨deeper, higher, hdeeper, hhigher⟩ := h
  obtain ⟨_, hused, _⟩ := Stack.raised_eq_ok_iff.mp hhigher
  unfold Stacked.framesPerCall at hused
  by_cases hrange : deeper.limit + high.callLimit * Stacked.framesPerCall ≤ 2147483647
  · have hmore : deeper.used < deeper.limit + high.callLimit * Stacked.framesPerCall := by
      unfold Stacked.framesPerCall
      omega
    exact .inl ⟨deeper, ⟨_, deeper.used, Int.le_of_lt hmore⟩, hdeeper,
      Stack.raised_eq_ok_iff.mpr ⟨hrange, hmore, rfl, rfl⟩⟩
  · right
    intro α q m hm
    have hrefused := Stack.raised_eq_outOfRange (Int.not_le.mp hrange)
    rw [useOn_of_raised hdeeper hrefused q hm]
    rfl

/-- A use leaves nothing behind but its text and records. -/
theorem useOn_used (ev : Evaluator) {q : Stacked α} (hapart : q.Apart) {m : Machine}
    (hm : m.guards = 0) (stack : Stack) : ∃ result text last happened,
      useOn frames ev q stack m = (result, m.used text last happened) := by
  obtain ⟨result, text, hall⟩ := useOn_recorded frames ev hapart hm stack
  obtain ⟨last, happened, huse⟩ := hall m.output m.lastCall m.events
  exact ⟨result, text, last, happened, huse⟩

/-- Where both are granted their headroom, a use under the lower limit is as under the higher one, or
it ends with the error for too many calls and what it wrote is written first under the higher one. -/
theorem useOn_raised {q q' : Stacked α} (hraised : q.Raised (Spares low.callLimit) q')
    (hapart : q.Apart) (hapart' : q'.Apart) (hlimit : low.callLimit ≤ high.callLimit) {stack : Stack}
    (granted : low.Grants frames stack) (granted' : high.Grants frames stack) {m : Machine}
    (hm : m.guards = 0) :
    useOn frames high q' stack m = useOn frames low q stack m ∨
    (∃ name n, (useOn frames low q stack m).1 =
      .error (.fault (.failed (.callDepthExceeded name n)))) ∧
    ∃ more, (useOn frames high q' stack m).2.output =
      (useOn frames low q stack m).2.output ++ more := by
  obtain ⟨deeper, lower, hdeeper, hlower⟩ := granted
  obtain ⟨deeper', upper, hdeeper', hupper⟩ := granted'
  obtain rfl := Option.some.inj (hdeeper.symm.trans hdeeper')
  have hguards : m.entered.guards ≠ 0 := by simp [Machine.entered]
  have hroom : lower.room ≤ upper.room := by
    obtain ⟨_, _, hlimit₁, hused₁⟩ := Stack.raised_eq_ok_iff.mp hlower
    obtain ⟨_, _, hlimit₂, hused₂⟩ := Stack.raised_eq_ok_iff.mp hupper
    unfold Stack.room Stacked.framesPerCall at *
    omega
  obtain ⟨e, e', he, he', related⟩ := hraised lower upper hroom m.entered hguards
  have huse := useOn_granted hdeeper hlower hm he (hapart.scopes_eq hguards he)
  have huse' := useOn_granted hdeeper hupper hm he' (hapart'.scopes_eq hguards he')
  rw [huse, huse']
  -- The error for too many calls is reported where the low one has run out of its stack.
  have hexhausted (name : String) (hresult : e.result = .error (.stack .exhausted)) :
      ∃ name' n, reported name low.callLimit e.result =
        .error (.fault (.failed (.callDepthExceeded name' n))) := by
    rw [hresult]
    exact ⟨name, low.callLimit, rfl⟩
  cases related.follows with
  | same =>
    by_cases hresult : e.result = .error (.stack .exhausted)
    · exact .inr ⟨hexhausted _ hresult, "", String.append_empty.symm⟩
    · left
      rw [reported_of_ne hresult, reported_of_ne hresult]
  | @stopped _ why halted stops precedes =>
    right
    constructor
    · rcases stops with rfl | ⟨name, rfl⟩
      · exact hexhausted _ halted
      · rw [halted]
        exact ⟨name, low.callLimit, rfl⟩
    · obtain ⟨more, hmore⟩ := precedes.text
      exact ⟨more, by simp only [Machine.used, hmore, String.append_assoc]⟩

/-- What a run comes to with some fuel it comes to with more. -/
theorem runOn_of_le (frames : Frames) (ev : Evaluator) (p : Program) {fuel most : Nat}
    (hle : fuel ≤ most) {stack : Stack} {m : Machine} {result : Except Halt (List Float)}
    {after : Machine} (hrun : runOn frames ev p fuel stack m = (result, after))
    (hended : result ≠ .error .outOfFuel) : runOn frames ev p most stack m = (result, after) := by
  have hsame := Stacked.Refuelled.of_le (q := fun fuel => runOn frames ev p fuel)
    (fun fuel => useOn_refuelled frames ev (evaluateAllOn_refuelled fuel p.expressions)) hle stack m
  simp only [hrun] at hsame
  exact hsame.resolve_left hended

section

variable {p : Program} {limit limit' : Int} (hlimit : limit ≤ limit') {printsResults : Bool}
  {frames : Frames} {stack : Stack} {m : Machine} (hm : m.guards = 0)

include hlimit hm

/-- Where both limits are granted their headroom, a run under the higher one is as under the lower one,
or that one ends with the error for too many calls and what it wrote is written first. -/
theorem runOn_raised (granted : (ofProgram p {} limit printsResults).Grants frames stack)
    (granted' : (ofProgram p {} limit' printsResults).Grants frames stack) (fuel : Nat) :
    runOn frames (ofProgram p {} limit' printsResults) p fuel stack m =
      runOn frames (ofProgram p {} limit printsResults) p fuel stack m ∨
    (∃ name n, (runOn frames (ofProgram p {} limit printsResults) p fuel stack m).1 =
      .error (.fault (.failed (.callDepthExceeded name n)))) ∧
    ∃ more, (runOn frames (ofProgram p {} limit' printsResults) p fuel stack m).2.output =
      (runOn frames (ofProgram p {} limit printsResults) p fuel stack m).2.output ++ more :=
  useOn_raised ((raises_limit frames p hlimit printsResults).evaluateAll fuel p.expressions)
    (evaluateAllOn_apart rfl fuel p.expressions) (evaluateAllOn_apart rfl fuel p.expressions) hlimit
    granted granted' hm

/-- How a run ends under the lower limit, other than by that limit or by the stack, it ends under the
higher one. -/
theorem runOn_kept {fuel : Nat} {result : Except Halt (List Float)} {after : Machine}
    (hrun : runOn frames (ofProgram p {} limit printsResults) p fuel stack m = (result, after))
    (hstack : ∀ why, result ≠ .error (.stack why))
    (hdeep : ∀ name n, result ≠ .error (.fault (.failed (.callDepthExceeded name n)))) :
    runOn frames (ofProgram p {} limit' printsResults) p fuel stack m = (result, after) ∨
      (runOn frames (ofProgram p {} limit' printsResults) p fuel stack m).1 =
        .error (.stack .outOfRange) := by
  have granted : (ofProgram p {} limit printsResults).Grants frames stack := by
    by_contra ungranted
    obtain ⟨why, hwhy, hrefused⟩ := useOn_refused ungranted
    obtain ⟨_, huse⟩ := hrefused (evaluateAllOn frames _ p fuel p.expressions) hm
    obtain ⟨rfl, _⟩ := Prod.mk.inj (hrun.symm.trans huse)
    rcases hwhy with ⟨e, rfl⟩ | ⟨name, n, rfl⟩
    · exact hstack e rfl
    · exact hdeep name n rfl
  rcases granted.raised (ofProgram p {} limit' printsResults) hlimit with granted' | hrefused
  · rcases runOn_raised hlimit hm granted granted' fuel with heq | ⟨⟨name, n, hresult⟩, _⟩
    · exact .inl (heq.trans hrun)
    · refine absurd ?_ (hdeep name n)
      rw [← hresult]
      exact (congrArg Prod.fst hrun).symm
  · exact .inr (hrefused _ m hm)

/-- What a run writes that ends with the error for too many calls is written first under the higher
limit. -/
theorem runOn_written {fuel : Nat} {after : Machine} {name : String} {n : Int}
    (hrun : runOn frames (ofProgram p {} limit printsResults) p fuel stack m =
      (.error (.fault (.failed (.callDepthExceeded name n))), after))
    {fuel' : Nat} {result' : Except Halt (List Float)} {last : Machine}
    (hrun' : runOn frames (ofProgram p {} limit' printsResults) p fuel' stack m = (result', last))
    (hended : result' ≠ .error .outOfFuel) :
    (∃ more, last.output = after.output ++ more) ∨ result' = .error (.stack .outOfRange) := by
  by_cases granted : (ofProgram p {} limit printsResults).Grants frames stack
  · rcases granted.raised (ofProgram p {} limit' printsResults) hlimit with granted' | hrefused
    · -- The two runs are compared with fuel enough for both.
      have hmost := runOn_of_le frames _ p (Nat.le_max_left fuel fuel') hrun (by simp)
      have hmost' := runOn_of_le frames _ p (Nat.le_max_right fuel fuel') hrun' hended
      rcases runOn_raised hlimit hm granted granted' (max fuel fuel') with heq | ⟨_, hwritten⟩
      · obtain ⟨_, rfl⟩ := Prod.mk.inj (hmost'.symm.trans (heq.trans hmost))
        exact .inl ⟨"", String.append_empty.symm⟩
      · rw [hmost, hmost'] at hwritten
        exact .inl hwritten
    · exact .inr ((congrArg Prod.fst hrun').symm.trans (hrefused _ m hm))
  · obtain ⟨why, _, hrefused⟩ := useOn_refused granted
    obtain ⟨_, huse⟩ := hrefused (evaluateAllOn frames _ p fuel p.expressions) hm
    have hapart : (evaluateAllOn frames (ofProgram p {} limit' printsResults) p fuel'
      p.expressions).Apart := evaluateAllOn_apart rfl fuel' p.expressions
    obtain ⟨_, text', _, _, huse'⟩ := useOn_used _ hapart hm stack
    obtain ⟨_, hafter⟩ := Prod.mk.inj (hrun.symm.trans huse)
    obtain ⟨_, rfl⟩ := Prod.mk.inj (hrun'.symm.trans huse')
    refine .inl ⟨text', ?_⟩
    rw [hafter]
    simp [Machine.used]

end

/-- Raising the limit keeps the answer, as long as the system grants the headroom for the limit. Whenever
a run is carried out with the standard functions alone, as many bodies as the limit allows are active at
once, and no more. If it ends, neither with the error for too many calls nor because it was refused its
headroom, then under a higher limit it ends in the same way and leaves the same behind, or that limit is
refused as out of range. If it ends with the error for too many calls, then what it wrote is written
first by every run under a higher limit that ends and is not refused as out of range. -/
theorem raised_limit_keeps_answer_on_stack (p : Program) {limit limit' : Int}
    (hlimit : limit ≤ limit') (printsResults : Bool) (frames : Frames) (stack : Stack) {m : Machine}
    (hm : m.guards = 0) (hidle : m.activeCalls = 0) :
    let low := ofProgram p {} limit printsResults
    let high := ofProgram p {} limit' printsResults
    ∀ fuel result after, runOn frames low p fuel stack m = (result, after) →
      (∃ text last happened, after = m.used text last happened ∧ Obeys limit happened) ∧
      ((∀ why, result ≠ .error (.stack why)) → result ≠ .error .outOfFuel →
        (∀ name n, result ≠ .error (.fault (.failed (.callDepthExceeded name n)))) →
        runOn frames high p fuel stack m = (result, after) ∨
          (runOn frames high p fuel stack m).1 = .error (.stack .outOfRange)) ∧
      ∀ name n, result = .error (.fault (.failed (.callDepthExceeded name n))) →
        ∀ fuel' result' last, runOn frames high p fuel' stack m = (result', last) →
          result' ≠ .error .outOfFuel →
          (∃ more, last.output = after.output ++ more) ∨ result' = .error (.stack .outOfRange) := by
  intro low high fuel result after hrun
  refine ⟨?_, fun hstack _ hdeep => runOn_kept hlimit hm hrun hstack hdeep, ?_⟩
  · obtain ⟨_, text, last, happened, huse, hobeys⟩ :=
      Use.run.performOn_obeys (show low.invoke = Standard.invoke from rfl) p fuel stack hm hidle
    obtain ⟨_, rfl⟩ := Prod.mk.inj (hrun.symm.trans huse)
    exact ⟨text, last, happened, rfl, hobeys⟩
  · rintro name n rfl fuel' result' last hrun' hended
    exact runOn_written hlimit hm hrun hrun' hended

/-- A recursion that writes and has no end is stopped behind its first line, and behind its second
under the next limit. -/
theorem endless_recursion_writes_on :
    let line : Expr := .call "printd" [.number 2.0 none] none
    let body : Expr := .binary .plus line (.call "f" [] none) none
    let p := Program.ofStatements [.foreign ⟨"printd", ["x"], none⟩,
      .definition ⟨⟨"f", [], none⟩, body⟩, .expression (.call "f" [] none)]
    let once := runOn .usual (ofProgram p {} 1) p 20 .usual {}
    let twice := runOn .usual (ofProgram p {} 2) p 20 .usual {}
    once.1 = .error (.fault (.failed (.callDepthExceeded "f" 1))) ∧
      twice.1 = .error (.fault (.failed (.callDepthExceeded "f" 2))) ∧
      once.2.output = "2.000000\n" ∧ ∃ more, twice.2.output = once.2.output ++ more := by
  intro line body p once twice
  have honce : once.1 = .error (.fault (.failed (.callDepthExceeded "f" 1))) :=
    eq_of_tooMany? (by decide +kernel)
  have htwice : twice.1 = .error (.fault (.failed (.callDepthExceeded "f" 2))) :=
    eq_of_tooMany? (by decide +kernel)
  have hlimit : (1 : Int) ≤ 2 := by decide
  have hmore := (raised_limit_keeps_answer_on_stack p hlimit false .usual .usual rfl rfl 20 once.1
    once.2 (Prod.eta once).symm).2.2 "f" 1 honce 20 twice.1 twice.2 (Prod.eta twice).symm
    (by rw [htwice]; exact fun h => nomatch h)
  refine ⟨honce, htwice, by decide +kernel, hmore.resolve_right ?_⟩
  rw [htwice]
  exact fun h => nomatch h

/-- A program that needs no calls has its result under the usual limit, and none under a limit of a
thousand million. -/
theorem great_limit_is_out_of_range :
    let p := Program.ofStatements [.expression (.number 1.0 none)]
    (runOn .usual (ofProgram p {} 1000) p 3 .usual {}).1 = .ok [1.0] ∧
      (runOn .usual (ofProgram p {} 1000000000) p 3 .usual {}).1 = .error (.stack .outOfRange) :=
  ⟨rfl, rfl⟩

end Formulary.Evaluator
