import Formulary.Proofs.Descent.Reading

/-!
# Two runs on lists that begin alike

Two runs of the parser, on token lists that agree before some place and with nesting limits and fuel
of their own, stay in step up to that place: what the first does there the second does as well,
unless it is cut short or stops for its nesting limit. A run never looks at a token before it has
passed those in front, so what it does before the place depends on nothing behind it.
-/

namespace Formulary.Parser

open Descent

/-- Is an outcome none that the tokens decide: cut short, or stopped by the nesting limit? -/
def Outcome.Escapes {α : Type} : Outcome α → Prop
  | .success _ _ => False
  | .failure e _ => e.IsNesting
  | .cutShort => True

/-- Two cursors have the same tokens behind them, and the same ahead up to an index of the list. -/
structure Near (window : Nat) (c c' : Cursor) : Prop where
  consumed : c.consumed = c'.consumed
  rest : ∀ i, c.index + i < window → c.rest[i]? = c'.rest[i]?

/-- The second outcome is that of the first, if that was decided before the window ends. -/
def InStep {α : Type} (window : Nat) (o o' : Outcome α) : Prop :=
  o.Ends
    (fun a after => after.index < window →
      o'.Escapes ∨ ∃ after', o' = .success a after' ∧ Near window after after')
    fun e after => e.IsNesting ∨ (e.index after < window →
      o'.Escapes ∨ ∃ after', o' = .failure e after' ∧ Near window after after')

/-- An outcome behind a place: the cursor has not moved back, nor is a token before it to blame. -/
def Outcome.Onward {α : Type} (place : Nat) (o : Outcome α) : Prop :=
  o.Ends (fun _ after => place ≤ after.index) fun e after => e.IsNesting ∨ place ≤ e.index after

/-- Two descents stay in step from any two cursors that are near, and the first goes onward. -/
structure Lockstep {α : Type} (window : Nat) (p p' : Descent α) : Prop where
  onward : ∀ c, (p c).Onward c.index
  inStep : ∀ c c', Near window c c' → InStep window (p c) (p' c')

namespace Near

variable {window : Nat} {c c' : Cursor}

/-- Near cursors stand at the same index. -/
theorem index_eq (h : Near window c c') : c.index = c'.index := by
  rw [Cursor.index, Cursor.index, h.consumed]

/-- Near cursors are behind the same last token. -/
theorem lastLocation_eq (h : Near window c c') : c.lastLocation = c'.lastLocation := by
  rw [Cursor.lastLocation, Cursor.lastLocation, h.consumed]

/-- In the window, near cursors have no token ahead or the same one, and are near behind it. -/
theorem uncons (h : Near window c c') (hwindow : c.index < window) :
    (c.rest = [] ∧ c'.rest = []) ∨ ∃ t rest rest', c.rest = t :: rest ∧ c'.rest = t :: rest' ∧
      Near window (c.pass t rest) (c'.pass t rest') := by
  have hhead := h.rest 0 hwindow
  cases hc : c.rest with
  | nil =>
    rw [hc, List.getElem?_nil, eq_comm, List.getElem?_eq_none_iff] at hhead
    exact .inl ⟨rfl, List.eq_nil_of_length_eq_zero (Nat.le_zero.mp hhead)⟩
  | cons t rest =>
    rw [hc, List.getElem?_cons_zero] at hhead
    cases hc' : c'.rest with
    | nil =>
      rw [hc', List.getElem?_nil] at hhead
      contradiction
    | cons t' rest' =>
      rw [hc', List.getElem?_cons_zero] at hhead
      obtain rfl := Option.some.inj hhead
      refine .inr ⟨t, rest, rest', rfl, rfl, ?_, fun i hi => ?_⟩
      · rw [Cursor.pass, Cursor.pass, h.consumed]
      · rw [Cursor.index_pass] at hi
        have := h.rest (i + 1) (by omega)
        rwa [hc, hc', List.getElem?_cons_succ, List.getElem?_cons_succ] at this

/-- In the window, near cursors have the same token at hand. -/
theorem current_eq (h : Near window c c') (hwindow : c.index < window) : c.current = c'.current := by
  rw [Cursor.current, Cursor.current]
  rcases h.uncons hwindow with ⟨hc, hc'⟩ | ⟨t, rest, rest', hc, hc', _⟩
  · rw [hc, hc', h.lastLocation_eq]
  · rw [hc, hc']

end Near

section

variable {α β : Type} {window : Nat}

/-- What goes onward may be said to start earlier. -/
theorem Outcome.Onward.mono {o : Outcome α} {place earlier : Nat} (h : o.Onward place)
    (hle : earlier ≤ place) : o.Onward earlier :=
  Outcome.Ends.mono h (fun _ _ => Nat.le_trans hle) fun _ _ =>
    Or.imp_right (Nat.le_trans hle)

/-- What starts behind the window is in step with anything. -/
theorem Outcome.Onward.inStep {o : Outcome α} {place : Nat} (h : o.Onward place)
    (hle : window ≤ place) (o' : Outcome α) : InStep window o o' :=
  Outcome.Ends.mono h (fun _ _ hplace hlt => absurd (Nat.le_trans hle hplace) (Nat.not_le.mpr hlt))
    fun _ _ => Or.imp_right fun hplace hlt =>
      absurd (Nat.le_trans hle hplace) (Nat.not_le.mpr hlt)

/-- A sequence escapes where its first part does. -/
theorem Outcome.Escapes.bind {p : Descent α} {c : Cursor} (h : (p c).Escapes) (f : α → Descent β) :
    (Descent.bind p f c).Escapes := by
  unfold Descent.bind
  cases hpc : p c with
  | success a after =>
    rw [hpc] at h
    exact h.elim
  | failure e after =>
    rw [hpc] at h
    exact h
  | cutShort => trivial

/-- Anything is in step with what escapes. -/
theorem InStep.of_escapes (o : Outcome α) {o' : Outcome α} (h : o'.Escapes) : InStep window o o' := by
  cases o with
  | success a after => exact fun _ => .inl h
  | failure e after => exact .inr fun _ => .inl h
  | cutShort => trivial

namespace Lockstep

theorem pure (a : α) : Lockstep window (pure a : Descent α) (pure a) :=
  ⟨fun _ => Nat.le_refl _, fun _ c' h _ => .inr ⟨c', rfl, h⟩⟩

theorem peek : Lockstep window Descent.peek Descent.peek := by
  refine ⟨fun _ => Nat.le_refl _, fun c c' h hwindow => .inr ⟨c', ?_, h⟩⟩
  rw [h.current_eq hwindow]
  rfl

theorem spanFrom (first : Token) : Lockstep window (Descent.spanFrom first) (Descent.spanFrom first) := by
  refine ⟨fun _ => Nat.le_refl _, fun c c' h _ => .inr ⟨c', ?_, h⟩⟩
  rw [h.lastLocation_eq]
  rfl

theorem cutShort (p : Descent α) : Lockstep window (Descent.cutShort : Descent α) p :=
  ⟨fun _ => trivial, fun _ _ _ => trivial⟩

theorem take (choose : Token → Option α) (cause : SyntaxCause)
    (hcause : ∀ t (c : Cursor), SyntaxError.index ⟨cause, t⟩ c = c.index) :
    Lockstep window (Descent.take choose cause) (Descent.take choose cause) := by
  have onward (c : Cursor) : (Descent.take choose cause c).Onward c.index :=
    ends_take (fun t rest _ _ _ => Nat.le_succ _) (.inr (Nat.le_of_eq (hcause _ _).symm))
  refine ⟨onward, fun c c' h => ?_⟩
  by_cases hwindow : c.index < window
  · unfold Descent.take
    rcases h.uncons hwindow with ⟨hc, hc'⟩ | ⟨t, rest, rest', hc, hc', hnear⟩
    · rw [hc, hc', h.current_eq hwindow]
      exact .inr fun _ => .inr ⟨c', rfl, h⟩
    · rw [hc, hc']
      cases hchoose : choose t with
      | none =>
        simp only [hchoose]
        exact .inr fun _ => .inr ⟨c', rfl, h⟩
      | some a =>
        simp only [hchoose]
        exact fun _ => .inr ⟨_, rfl, hnear⟩
  · exact (onward c).inStep (Nat.not_lt.mp hwindow) _

/-- Two descents that may take a token, where what follows the token is in step from any two cursors
behind one and the same. -/
theorem takeIf_of {choose : Token → Option α} {taken taken' : Token → α → Descent β}
    {otherwise otherwise' : Descent β}
    (honward : ∀ t a (c : Cursor) rest, (taken t a (c.pass t rest)).Onward c.index)
    (htaken : ∀ t a (c c' : Cursor) rest rest', Near window (c.pass t rest) (c'.pass t rest') →
      InStep window (taken t a (c.pass t rest)) (taken' t a (c'.pass t rest')))
    (hother : Lockstep window otherwise otherwise') :
    Lockstep window (takeIf choose taken otherwise) (takeIf choose taken' otherwise') := by
  have onward (c : Cursor) : (takeIf choose taken otherwise c).Onward c.index :=
    ends_takeIf (fun t rest a _ _ => honward t a c rest) fun _ => hother.onward c
  refine ⟨onward, fun c c' h => ?_⟩
  by_cases hwindow : c.index < window
  · unfold takeIf
    rcases h.uncons hwindow with ⟨hc, hc'⟩ | ⟨t, rest, rest', hc, hc', hnear⟩
    · rw [hc, hc']
      exact hother.inStep c c' h
    · rw [hc, hc']
      cases hchoose : choose t with
      | none =>
        simp only [hchoose]
        exact hother.inStep c c' h
      | some a =>
        simp only [hchoose]
        exact htaken t a c c' rest rest' hnear
  · exact (onward c).inStep (Nat.not_lt.mp hwindow) _

theorem takeIf {choose : Token → Option α} {taken taken' : Token → α → Descent β}
    {otherwise otherwise' : Descent β} (htaken : ∀ t a, Lockstep window (taken t a) (taken' t a))
    (hother : Lockstep window otherwise otherwise') :
    Lockstep window (Descent.takeIf choose taken otherwise)
      (Descent.takeIf choose taken' otherwise') :=
  takeIf_of (fun t a c rest => ((htaken t a).onward (c.pass t rest)).mono (Nat.le_succ _))
    (fun t a _ _ _ _ h => (htaken t a).inStep _ _ h) hother

/-- Lockstep along a sequence. -/
theorem bind {p p' : Descent α} {f f' : α → Descent β} (hp : Lockstep window p p')
    (hf : ∀ a, Lockstep window (f a) (f' a)) : Lockstep window (p >>= f) (p' >>= f') := by
  refine ⟨fun c => ?_, fun c c' h => ?_⟩
  · exact (ends_bind p f).mpr <| Outcome.Ends.mono (hp.onward c)
      (fun a after hle => ((hf a).onward after).mono hle) fun _ _ h => h
  · have hstep := hp.inStep c c' h
    change InStep window (Descent.bind p f c) (Descent.bind p' f' c')
    unfold Descent.bind
    cases hpc : p c with
    | success a after =>
      rw [hpc] at hstep
      by_cases hwindow : after.index < window
      · rcases hstep hwindow with hescapes | ⟨after', hpc', hnear⟩
        · exact .of_escapes _ (hescapes.bind f')
        · rw [hpc']
          exact (hf a).inStep after after' hnear
      · exact ((hf a).onward after).inStep (Nat.not_lt.mp hwindow) _
    | failure e after =>
      rw [hpc] at hstep
      apply hstep.imp_right
      intro hstep hwindow
      rcases hstep hwindow with hescapes | ⟨after', hpc', hnear⟩
      · exact .inl (hescapes.bind f')
      · rw [hpc']
        exact .inr ⟨after', rfl, hnear⟩
    | cutShort => trivial

theorem map {p p' : Descent α} (f : α → β) (hp : Lockstep window p p') :
    Lockstep window (f <$> p) (f <$> p') :=
  hp.bind fun a => pure (f a)

theorem expect (k : TokenKind) (context : Option String) :
    Lockstep window (Descent.expect k context) (Descent.expect k context) :=
  (take _ _ fun _ _ => rfl).bind fun _ => pure _

theorem name (context : String) : Lockstep window (Parser.name context) (Parser.name context) :=
  take _ _ fun _ _ => rfl

/-- A choice that the tokens decide. -/
theorem ite {condition : Prop} [Decidable condition] {p p' q q' : Descent α}
    (hp : Lockstep window p p') (hq : Lockstep window q q') :
    Lockstep window (if condition then p else q) (if condition then p' else q') := by
  split
  · exact hp
  · exact hq

/-- A choice that the nesting limit decides: where it is exceeded both runs may part. -/
theorem guard {condition condition' : Prop} [Decidable condition] [Decidable condition']
    {p p' q q' : Descent α} (hp : ∀ c, (p c).Escapes) (hp' : ∀ c, (p' c).Escapes)
    (hq : Lockstep window q q') :
    Lockstep window (if condition then p else q) (if condition' then p' else q') := by
  have hescapes {o : Outcome α} (h : o.Escapes) (place : Nat) : o.Onward place := by
    cases o with
    | success _ _ => exact h.elim
    | failure e _ => exact .inl h
    | cutShort => trivial
  refine ⟨fun c => ?_, fun c c' h => ?_⟩
  · split
    · exact hescapes (hp c) _
    · exact hq.onward c
  · split
    · exact (hescapes (hp c) window).inStep (Nat.le_refl _) _
    · split
      · exact .of_escapes _ (hp' c')
      · exact hq.inStep c c' h

theorem checked (limit limit' : Int) (blame : Token) (m : Measured) :
    Lockstep window (Parser.checked limit blame m) (Parser.checked limit' blame m) :=
  guard (fun _ => ⟨_, rfl⟩) (fun _ => ⟨_, rfl⟩) (pure m)

end Lockstep

end

/-! ### The descents of the grammar -/

section

variable {window : Nat} {limit limit' : Int} {e e' : Descent Measured}

namespace Lockstep

theorem conditional (h : Lockstep window e e') (first : Token) :
    Lockstep window (Parser.conditional limit e first) (Parser.conditional limit' e' first) :=
  h.bind fun _ => (expect _ _).bind fun _ => h.bind fun _ => (expect _ _).bind fun _ =>
    h.bind fun _ => (spanFrom _).bind fun _ => checked _ _ _ _

theorem loopStep (h : Lockstep window e e') :
    Lockstep window (Parser.loopStep e) (Parser.loopStep e') :=
  takeIf (fun _ _ => h.map _) (pure _)

theorem forLoop (h : Lockstep window e e') (first : Token) :
    Lockstep window (Parser.forLoop limit e first) (Parser.forLoop limit' e' first) :=
  (name _).bind fun _ => (take _ _ fun _ _ => rfl).bind fun _ => h.bind fun _ =>
    (expect _ _).bind fun _ => h.bind fun _ => (loopStep h).bind fun _ => (expect _ _).bind fun _ =>
    h.bind fun _ => (spanFrom _).bind fun _ => checked _ _ _ _

theorem grouping {chain chain' : Nesting → Descent Measured}
    (h : ∀ n n', Lockstep window (chain n) (chain' n')) (n n' : Nesting) (first : Token) :
    Lockstep window (Parser.grouping n chain first) (Parser.grouping n' chain' first) :=
  guard (fun _ => ⟨_, rfl⟩) (fun _ => ⟨_, rfl⟩) <|
    (h _ _).bind fun _ => (expect _ _).bind fun _ => pure _

theorem variableOrCall {arguments arguments' : Descent (List Measured)}
    (h : Lockstep window arguments arguments') (first : Token) (name : String) :
    Lockstep window (Parser.variableOrCall limit arguments first name)
      (Parser.variableOrCall limit' arguments' first name) :=
  takeIf
    (fun _ _ => (peek.bind fun _ => ite (pure _) h).bind fun _ => (expect _ _).bind fun _ =>
      (spanFrom _).bind fun _ => checked _ _ _ _)
    ((spanFrom _).bind fun _ => pure _)

theorem rightOperand {operations operations' : Measured → Descent Measured}
    (h : ∀ m, Lockstep window (operations m) (operations' m)) (op : Operator) (right : Measured) :
    Lockstep window (Parser.rightOperand op operations right)
      (Parser.rightOperand op operations' right) :=
  peek.bind fun _ => ite (h _) (pure _)

end Lockstep

/-- Running out of fuel puts no descent out of step. -/
theorem Lockstep.of_fuel {α : Type} {p : Descent α} {q : Nat → Descent α} (hzero : q 0 = Descent.cutShort)
    (hsucc : ∀ fuel, Lockstep window p (q (fuel + 1))) : ∀ fuel, Lockstep window p (q fuel)
  | 0 => ⟨(hsucc 0).onward, fun _ _ _ => .of_escapes _ (by rw [hzero]; trivial)⟩
  | fuel + 1 => hsucc fuel

end

/-- All descents into expressions stay in step, whatever their fuel and their nesting. -/
theorem lockstep_within (window fuel : Nat) :
    (∀ fuel' n n', Lockstep window (expressionWithin fuel n) (expressionWithin fuel' n')) ∧
    (∀ fuel' n n', Lockstep window (chainWithin fuel n) (chainWithin fuel' n')) ∧
    (∀ fuel' n n', Lockstep window (primaryWithin fuel n) (primaryWithin fuel' n')) ∧
    (∀ fuel' n n' least left, Lockstep window (operationsWithin fuel n least left)
      (operationsWithin fuel' n' least left)) ∧
    (∀ fuel' n n', Lockstep window (argumentsWithin fuel n) (argumentsWithin fuel' n')) := by
  induction fuel with
  | zero =>
    exact ⟨fun _ _ _ => .cutShort _, fun _ _ _ => .cutShort _, fun _ _ _ => .cutShort _,
      fun _ _ _ _ _ => .cutShort _, fun _ _ _ => .cutShort _⟩
  | succ fuel ih =>
    obtain ⟨expression, chain, primary, operations, arguments⟩ := ih
    refine ⟨?_, ?_, ?_, ?_, ?_⟩
    · refine fun fuel' n n' => .of_fuel (q := fun f => expressionWithin f n') rfl
        (fun fuel' => ?_) fuel'
      exact .guard (fun _ => ⟨_, rfl⟩) (fun _ => ⟨_, rfl⟩) (chain _ _ _)
    · refine fun fuel' n n' => .of_fuel (q := fun f => chainWithin f n') rfl (fun fuel' => ?_) fuel'
      exact (primary _ _ _).bind fun left => operations _ _ _ _ left
    · refine fun fuel' n n' => .of_fuel (q := fun f => primaryWithin f n') rfl
        (fun fuel' => ?_) fuel'
      apply (Lockstep.take _ _ fun _ _ => rfl).bind
      intro taken
      obtain ⟨first, opening⟩ := taken
      cases opening with
      | number value => exact (Lockstep.spanFrom _).bind fun _ => .pure _
      | identifier name => exact .variableOrCall (arguments _ _ _) _ _
      | group => exact .grouping (fun _ _ => chain _ _ _) _ _ _
      | conditional => exact .conditional (expression _ _ _) _
      | loop => exact .forLoop (expression _ _ _) _
    · refine fun fuel' n n' least left => .of_fuel (q := fun f => operationsWithin f n' least left)
        rfl (fun fuel' => ?_) fuel'
      refine .takeIf (fun token op => ?_) (.pure _)
      exact (primary _ _ _).bind fun right =>
        (Lockstep.rightOperand (fun _ => operations _ _ _ _ _) op right).bind fun right =>
        (Lockstep.checked _ _ _ _).bind fun node => operations _ _ _ _ _
    · refine fun fuel' n n' => .of_fuel (q := fun f => argumentsWithin f n') rfl
        (fun fuel' => ?_) fuel'
      exact (expression _ _ _).bind fun _ => Lockstep.peek.bind fun _ => .ite (.pure _)
        ((Lockstep.take _ _ fun _ _ => rfl).bind fun _ => (arguments _ _ _).bind fun _ => .pure _)

/-- The descent into parameters stays in step. A repeated parameter has been taken when it is
refused, so the token to blame is the one before the cursor. -/
theorem lockstep_parametersWithin (window fuel : Nat) (function : String) (seen : List String) :
    ∀ fuel', Lockstep window (parametersWithin fuel function seen)
      (parametersWithin fuel' function seen) := by
  induction fuel generalizing seen with
  | zero => exact fun _ => .cutShort _
  | succ fuel ih =>
    refine .of_fuel rfl fun fuel' => ?_
    have more (parameter : String) : Lockstep window
        (Descent.takeIf (ofKind (.punctuation .comma))
          (fun _ _ => parametersWithin fuel function (seen ++ [parameter]))
          (parametersWithin fuel function (seen ++ [parameter])))
        (Descent.takeIf (ofKind (.punctuation .comma))
          (fun _ _ => parametersWithin fuel' function (seen ++ [parameter]))
          (parametersWithin fuel' function (seen ++ [parameter]))) :=
      .takeIf (fun _ _ => ih _ fuel') (ih _ fuel')
    unfold parametersWithin
    refine .takeIf_of (fun t parameter c rest => ?_) (fun t parameter c c' rest rest' h => ?_)
      (.pure _)
    · split
      · exact .inr (Nat.le_refl _)
      · exact ((more parameter).onward _).mono (Nat.le_succ _)
    · split
      · exact .inr fun _ => .inr ⟨_, rfl, h⟩
      · exact (more parameter).inStep _ _ h

namespace Lockstep

variable (window fuel fuel' : Nat)

theorem prototypeWithin :
    Lockstep window (Parser.prototypeWithin fuel) (Parser.prototypeWithin fuel') :=
  (name _).bind fun _ => (expect _ _).bind fun _ =>
    (lockstep_parametersWithin _ _ _ _ _).bind fun _ => (expect _ _).bind fun _ =>
    (spanFrom _).bind fun _ => pure _

theorem foreignWithin : Lockstep window (Parser.foreignWithin fuel) (Parser.foreignWithin fuel') :=
  (expect _ _).bind fun _ => (prototypeWithin _ _ _).bind fun _ => (expect _ _).bind fun _ => pure _

theorem definitionWithin (limit limit' : Int) :
    Lockstep window (Parser.definitionWithin fuel limit) (Parser.definitionWithin fuel' limit') :=
  (expect _ _).bind fun _ => (prototypeWithin _ _ _).bind fun _ =>
    ((lockstep_within _ _).1 _ _ _).bind fun _ => (expect _ _).bind fun _ => pure _

/-- The descent into a statement stays in step. -/
theorem statementWithin (limit limit' : Int) :
    Lockstep window (Parser.statementWithin fuel limit) (Parser.statementWithin fuel' limit') := by
  have formula : Lockstep window
      (do
        let e ← expressionWithin fuel { limit }
        let _ ← Descent.expect (.punctuation .semicolon) "after top-level expression"
        return some (Statement.expression e.expr))
      (do
        let e ← expressionWithin fuel' { limit := limit' }
        let _ ← Descent.expect (.punctuation .semicolon) "after top-level expression"
        return some (Statement.expression e.expr)) :=
    ((lockstep_within _ _).1 _ _ _).bind fun _ => (expect _ _).bind fun _ => pure _
  apply peek.bind
  intro next
  cases next.kind with
  | keyword w =>
    cases w with
    | externWord => exact (foreignWithin _ _ _).bind fun _ => pure _
    | defWord => exact (definitionWithin _ _ _ _ _).bind fun _ => pure _
    | _ => exact formula
  | punctuation m =>
    cases m with
    | semicolon => exact (expect _ _).bind fun _ => pure _
    | _ => exact formula
  | _ => exact formula

end Lockstep

end Formulary.Parser
