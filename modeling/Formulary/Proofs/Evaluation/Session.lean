import Formulary.Proofs.Evaluation.Adequacy

/-!
# What a use of an evaluator comes to

An evaluator is run, given an expression to evaluate, or called. What a use comes to (`Use.Means`)
mentions neither scopes nor calls under way, since at the beginning of a use no call is under way and
every use brings its scopes along. A run comes to what its formulas come to one by one.
-/

namespace Formulary

open Evaluation

namespace Evaluation

variable {α β : Type}

namespace Computes

variable {a : Nat → Action α} {f : Nat → α → Action β} {s : State}
  {P Q : Except Fault α → String → Prop}

/-- A relation may be described in another way. -/
theorem congr (h : Computes a s P) (hiff : ∀ r out, P r out ↔ Q r out) : Computes a s Q :=
  ⟨fun fuel => (h.sound fuel).mono fun r out => (hiff r out).mp,
    fun r out hQ => h.complete r out ((hiff r out).mpr hQ)⟩

/-- What an action settles with is what the relation gives. -/
theorem settles_iff (h : Computes a s P) (r : Except Fault α) (out : String) :
    Settles a s r out ↔ P r out := by
  constructor
  · rintro ⟨least, hleast⟩
    exact (h.report_iff r out).mp ⟨least, hleast least (Nat.le_refl least)⟩
  · exact h.complete r out

/-- A sequence computes what its parts do: a fault of the first, or what the second does with the
value of the first, behind its text. -/
theorem bind {R : α → Except Fault β → String → Prop} (ha : Computes a s P)
    (hf : ∀ x out, Computes (fun fuel => f fuel x) (s.wrote out) (R x)) :
    Computes (fun fuel => a fuel >>= f fuel) s fun r out =>
      (∃ e, r = .error e ∧ P (.error e) out) ∨
        ∃ x before after, P (.ok x) before ∧ R x r after ∧ out = before ++ after := by
  constructor
  · intro fuel
    apply (ha.sound fuel).bind
    · intro x out hx
      apply ((hf x out).sound fuel).mono
      intro r more hr
      exact .inr ⟨x, out, more, hx, hr, rfl⟩
    · intro e out he
      exact .inl ⟨e, rfl, he⟩
  · rintro r out (⟨e, rfl, he⟩ | ⟨x, before, after, hx, hr, rfl⟩)
    · exact (ha.complete _ _ he).bind_fault
    · exact (ha.complete _ _ hx).bind ((hf x before).complete _ _ hr)

/-- What needs no fuel computes its report. -/
theorem of_eq {r : Except Fault α} {out : String} (h : ∀ fuel, a fuel s = Outcome.report s out r) :
    Computes a s fun r' out' => r' = r ∧ out' = out := by
  constructor
  · intro fuel
    exact .inr ⟨r, out, h fuel, rfl, rfl⟩
  · rintro _ _ ⟨rfl, rfl⟩
    exact .of_eq h

/-- An action ends, with some fuel, as the relation says. -/
theorem ended_iff (h : Computes a s P) (r : Except Fault α) (after : State) :
    (∃ fuel, a fuel s = .ended r after) ↔ ∃ out, after = s.wrote out ∧ P r out := by
  constructor
  · rintro ⟨fuel, hended⟩
    rcases h.sound fuel with hout | ⟨r', out, hreport, hP⟩
    · exact absurd (hout.symm.trans hended) (Outcome.outOfFuel_ne_ended r after)
    · obtain ⟨rfl, rfl⟩ := Outcome.ended_inj (hended.symm.trans hreport)
      exact ⟨out, rfl, hP⟩
  · rintro ⟨out, rfl, hP⟩
    exact (h.report_iff r out).mpr hP

/-- An action that ended reported what the relation gives, with what it wrote. -/
theorem of_ended (h : Computes a s P) {fuel : Nat} {r : Except Fault α} {after : State}
    {text : String} (hended : a fuel s = .ended r after)
    (hwritten : after.output = s.output ++ text) : after = s.wrote text ∧ P r text := by
  obtain ⟨out, rfl, hP⟩ := (h.ended_iff r after).mp ⟨fuel, hended⟩
  obtain rfl : out = text := by simpa [State.wrote] using hwritten
  exact ⟨rfl, hP⟩

/-- What is made of a value computes the same, made of it. -/
theorem map (ha : Computes a s P) (g : α → β) :
    Computes (fun fuel => a fuel >>= fun x => pure (g x)) s fun r out =>
      ∃ r', P r' out ∧ r = r'.map g := by
  have hmade (x : α) (out : String) : Computes (fun _ => (pure (g x) : Action β)) (s.wrote out)
      fun r more => r = .ok (g x) ∧ more = "" :=
    .of_eq fun _ => Outcome.pure_eq_report _ _
  apply (ha.bind hmade).congr
  intro r out
  constructor
  · rintro (⟨e, rfl, he⟩ | ⟨x, before, after, hx, ⟨rfl, rfl⟩, rfl⟩)
    · exact ⟨.error e, he, rfl⟩
    · exact ⟨.ok x, by rwa [String.append_empty], rfl⟩
  · rintro ⟨r' | x, hr, rfl⟩
    · exact .inl ⟨r', rfl, hr⟩
    · exact .inr ⟨x, out, "", hr, ⟨rfl, rfl⟩, String.append_empty.symm⟩

end Computes

/-- What is written of a result. -/
def resultText (printsResults : Bool) (x : Float) : String :=
  if printsResults then Number.fixed x ++ "\n" else ""

/-- What expressions come to if each comes to something by itself, in order and up to the first
fault, with the texts of the results in between. -/
inductive OneByOne (P : Expr → Except Fault Float → String → Prop) (printsResults : Bool) :
    List Expr → Except Fault (List Float) → String → Prop where
  | nil : OneByOne P printsResults [] (.ok []) ""
  | fault {e rest f out} (first : P e (.error f) out) :
    OneByOne P printsResults (e :: rest) (.error f) out
  | next {e rest x r out more} (first : P e (.ok x) out)
    (others : OneByOne P printsResults rest r more) :
    OneByOne P printsResults (e :: rest) (r.map (x :: ·))
      (out ++ (resultText printsResults x ++ more))

end Evaluation

namespace Evaluator

/-- A use of an evaluator. -/
inductive Use where
  | run
  | evaluate (e : Expr) (bindings : List (String × Float))
  | call (name : String) (values : List Float)

namespace Use

/-- Carry out a use. An expression and a call have one result. -/
def perform (ev : Evaluator) (p : Program) (fuel : Nat) : Use → Action (List Float)
  | run => ev.run p fuel
  | evaluate e bindings => do
    let x ← ev.evaluate p fuel e bindings
    return [x]
  | call name values => do
    let x ← ev.callNamed p fuel name values
    return [x]

/-- What a use comes to. -/
def Means (w : Setting) (printsResults : Bool) :
    Use → Except Fault (List Float) → String → Prop
  | run => OneByOne (Evaluates w 0 .empty) printsResults w.program.expressions
  | evaluate e bindings => fun r out =>
    ∃ r', Evaluates w 0 (.ofBindings bindings) e r' out ∧ r = r'.map fun x => [x]
  | call name values => fun r out =>
    ∃ r', Calls w 0 none name values r' out ∧ r = r'.map fun x => [x]

end Use

section

variable (ev : Evaluator) (p : Program)

/-- Write a result if results are written. -/
def writeResult (x : Float) : Action Unit :=
  if ev.printsResults then Standard.writeNumber x else pure ()

/-- A result is reported to be written. -/
theorem writeResult_eq_report (x : Float) (s : State) :
    ev.writeResult x s = Outcome.report s (resultText ev.printsResults x) (.ok ()) := by
  unfold writeResult resultText
  split
  · rfl
  · exact Outcome.pure_eq_report () s

/-- The first of several formulas is evaluated and its result written before the others. -/
theorem evaluateAll_cons (fuel : Nat) (e : Expr) (rest : List Expr) :
    ev.evaluateAll p fuel (e :: rest) = (do
      let x ← ev.evaluate p fuel e
      ev.writeResult x
      let xs ← ev.evaluateAll p fuel rest
      return x :: xs) := by
  rw [evaluateAll]
  congr 1
  funext x
  unfold writeResult
  split <;> rfl

/-- Formulas compute what they do one by one, if each does what it does by itself in any state with
so many calls under way. -/
theorem computes_evaluateAll {P : Expr → Except Fault Float → String → Prop} {n : Nat}
    (hP : ∀ e s, s.activeCalls = n → Computes (fun fuel => ev.evaluate p fuel e) s (P e))
    (es : List Expr) (s : State) (hs : s.activeCalls = n) :
    Computes (fun fuel => ev.evaluateAll p fuel es) s (OneByOne P ev.printsResults es) := by
  induction es generalizing s with
  | nil =>
    apply (Computes.of_eq (r := .ok []) (fun _ => Outcome.pure_eq_report _ s)).congr
    intro r out
    constructor
    · rintro ⟨rfl, rfl⟩
      exact .nil
    · rintro ⟨⟩
      exact ⟨rfl, rfl⟩
  | cons e rest ih =>
    have hrest (x : Float) (out : String) :=
      (Computes.of_eq fun _ => ev.writeResult_eq_report x (s.wrote out)).bind
        fun _ text => (ih ((s.wrote out).wrote text) hs).map (x :: ·)
    simp only [evaluateAll_cons]
    apply ((hP e s hs).bind hrest).congr
    intro r out
    constructor
    · rintro (⟨f, rfl, hf⟩ | ⟨x, before, after, hx, hr, rfl⟩)
      · exact .fault hf
      · obtain ⟨_, _, ⟨⟩, _⟩ | ⟨_, _, more, ⟨_, rfl⟩, ⟨r', hr', rfl⟩, rfl⟩ := hr
        exact .next hx hr'
    · rintro (_ | hf | ⟨hx, hr⟩)
      · exact .inl ⟨_, rfl, hf⟩
      · exact .inr ⟨_, _, _, hx, .inr ⟨(), _, _, ⟨rfl, rfl⟩, ⟨_, hr, rfl⟩, rfl⟩, rfl⟩

end

/-- A use that begins with no call under way computes what it means. -/
theorem Use.computes (w : Setting) (hp : w.program.Built) (printsResults : Bool) (use : Use)
    {s : State} (hs : s.activeCalls = 0) :
    Computes (fun fuel => use.perform (w.evaluator printsResults) w.program fuel) s
      (use.Means w printsResults) := by
  cases use with
  | run =>
    apply computes_evaluateAll (w.evaluator printsResults) w.program (n := 0)
    · intro e s hs
      have h := computes_evaluate w hp printsResults e [] (s := s)
      rw [hs] at h
      exact h
    · exact hs
  | evaluate e bindings =>
    have h := (computes_evaluate w hp printsResults e bindings (s := s)).map fun x => [x]
    rw [hs] at h
    exact h
  | call name values =>
    have h := (computes_callNamed w hp printsResults name values (s := s)).map fun x => [x]
    rw [hs] at h
    exact h

/-- Every use that begins with no call under way computes what it settles with on a new evaluator. -/
theorem Use.computes_fresh (w : Setting) (hp : w.program.Built) (printsResults : Bool) (use : Use)
    {s : State} (hs : s.activeCalls = 0) :
    Computes (fun fuel => use.perform (w.evaluator printsResults) w.program fuel) s
      (Settles (fun fuel => use.perform (w.evaluator printsResults) w.program fuel) {}) := by
  have hfresh := Use.computes w hp printsResults use (s := {}) rfl
  apply (Use.computes w hp printsResults use hs).congr
  intro r out
  exact (hfresh.settles_iff r out).symm

end Evaluator

end Formulary
