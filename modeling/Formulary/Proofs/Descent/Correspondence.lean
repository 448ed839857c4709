import Formulary.Proofs.Descent.Ends
import Formulary.Proofs.Grammar.Views
import Mathlib.Data.List.Forall2

/-!
# Runs on corresponding tokens

The parser looks at the contents of tokens and at nothing else; their locations it only passes on.
So two runs on tokens with the same contents go side by side, and what they come to differs in
locations as the tokens do. A `Correspondence` says which tokens correspond, and through which views
the spans of the two runs are the same. The second run may have passed more tokens before; it never
looks back at them.

`Parallel` is the fact that two descents go side by side. Its rules follow the shape of a descent.
-/

namespace Formulary.Parser

open Descent

/-- The end of the input, with the given location. -/
abbrev endToken (location : Option Location) : Token :=
  { content := .endOfInput, lexeme := "", location }

/-- How the tokens and the spans of two runs correspond, and the tokens that the second run has
passed before the first begins, the nearest first. Corresponding tokens have the same content, the
ends behind them correspond, and the spans from one to another, and those joined from such spans,
are the same through the two views. -/
structure Correspondence where
  token : Token → Token → Prop
  left : View
  right : View
  before : List Token
  content : ∀ {t t'}, token t t' → t.content = t'.content
  ending : ∀ {t t'}, token t t' → token (endToken t.location) (endToken t'.location)
  between : ∀ {t t' u u'}, token t t' → token u u' →
    left (Span.between? t.location u.location) = right (Span.between? t'.location u'.location)
  join : ∀ {a a' b b'}, left a = right a' → left b = right b' →
    left (Span.join? a b) = right (Span.join? a' b')

/-- A token has been passed. -/
def Cursor.Begun (c : Cursor) : Prop := c.consumed ≠ []

/-- There is a token, behind the cursor or ahead of it. -/
def Cursor.Inhabited (c : Cursor) : Prop := c.consumed ≠ [] ∨ c.rest ≠ []

namespace Correspondence

variable (r : Correspondence) {α β : Type}

/-- Two cursors stand side by side: the tokens behind them and ahead of them correspond, apart from
those that the second run had passed before. -/
structure Beside (c c' : Cursor) : Prop where
  consumed : ∃ passed, c'.consumed = passed ++ r.before ∧ List.Forall₂ r.token c.consumed passed
  rest : List.Forall₂ r.token c.rest c'.rest

/-- Mistakes with the same cause at corresponding tokens. -/
structure Mistakes (e e' : SyntaxError) : Prop where
  cause : e.cause = e'.cause
  token : r.token e.token e'.token

/-- Both outcomes are successes with values that are the same in some sense, the cursors stand side
by side again and a token has been passed; or both are failures with corresponding mistakes. -/
def Matches (same : α → α → Prop) (o o' : Outcome α) : Prop :=
  o.Ends
    (fun a after => o'.Ends (fun a' after' => same a a' ∧ r.Beside after after' ∧ after.Begun)
      fun _ _ => False)
    fun e _ => o'.Ends (fun _ _ => False) fun e' _ => r.Mistakes e e'

/-- Two descents go side by side from any two cursors that stand so, if the first starts where it
may. -/
def Parallel (start : Cursor → Prop) (same : α → α → Prop) (p p' : Descent α) : Prop :=
  ∀ c c', r.Beside c c' → start c → r.Matches same (p c) (p' c')

/-- Trees with the same nodes, and the same spans through the two views. -/
def Same (m m' : Measured) : Prop := m.expr.through r.left = m'.expr.through r.right

/-- Lists of such trees. -/
def SameAll (ms ms' : List Measured) : Prop :=
  (ms.map Measured.expr).map (Expr.through r.left) =
    (ms'.map Measured.expr).map (Expr.through r.right)

variable {r} {c c' : Cursor}

/-- A kind is that of the content. -/
theorem kind_eq {t t' : Token} (h : r.token t t') : t.kind = t'.kind :=
  congrArg TokenContent.kind (r.content h)

namespace Same

variable {m m' : Measured} (h : r.Same m m')

include h

/-- Trees with the same nodes have the same height. -/
theorem height_eq : m.height = m'.height := by
  have hheight := congrArg Expr.height h
  rwa [Expr.height_through, Expr.height_through, m.height_eq, m'.height_eq] at hheight

/-- Their own spans are the same through the two views. -/
theorem span_eq : r.left m.expr.span = r.right m'.expr.span := by
  have hspan := congrArg Expr.span h
  rwa [Expr.span_through, Expr.span_through] at hspan

end Same

/-! ### Cursors side by side -/

namespace Beside

/-- Behind some token the last tokens passed correspond. -/
theorem last (h : r.Beside c c') (hbegun : c.Begun) : ∃ t t', r.token t t' ∧
    c.lastLocation = t.location ∧ c'.lastLocation = t'.location := by
  obtain ⟨passed, hpassed, hconsumed⟩ := h.consumed
  unfold Cursor.Begun at hbegun
  unfold Cursor.lastLocation
  generalize c.consumed = consumed at hbegun hconsumed
  rw [hpassed]
  cases hconsumed with
  | nil => contradiction
  | @cons t t' ts ts' ht hts => exact ⟨t, t', ht, rfl, rfl⟩

/-- The two lists are at their ends, or both have a token ahead, and these correspond. -/
theorem uncons (h : r.Beside c c') : (c.rest = [] ∧ c'.rest = []) ∨
    ∃ t t' rest rest', c.rest = t :: rest ∧ c'.rest = t' :: rest' ∧ r.token t t' ∧
      r.Beside (c.pass t rest) (c'.pass t' rest') := by
  obtain ⟨passed, hpassed, hconsumed⟩ := h.consumed
  have hrest := h.rest
  generalize hc : c.rest = rest, hc' : c'.rest = rest' at hrest
  cases hrest with
  | nil => exact .inl ⟨rfl, rfl⟩
  | @cons t t' ts ts' ht hts =>
    refine .inr ⟨t, t', ts, ts', rfl, rfl, ht, ?_, hts⟩
    exact ⟨t' :: passed, congrArg (t' :: ·) hpassed, .cons ht hconsumed⟩

/-- The tokens at hand correspond. -/
theorem current (h : r.Beside c c') (hinhabited : c.Inhabited) : r.token c.current c'.current := by
  unfold Cursor.current
  rcases h.uncons with ⟨hc, hc'⟩ | ⟨t, t', rest, rest', hc, hc', ht, _⟩
  · obtain ⟨t, t', ht, hlast, hlast'⟩ := h.last (hinhabited.resolve_right (not_not_intro hc))
    rw [hc, hc', hlast, hlast']
    exact r.ending ht
  · rw [hc, hc']
    exact ht

end Beside

/-! ### Tokens with the same content -/

/-- What a token starts depends on its content. -/
theorem opening?_congr (t t' : Token) (h : t.content = t'.content) : opening? t = opening? t' := by
  rw [opening?, opening?, h]

/-- So does whether it is of some kind. -/
theorem ofKind_congr (k : TokenKind) (t t' : Token) (h : t.content = t'.content) :
    ofKind k t = ofKind k t' := by
  rw [ofKind, ofKind, Token.kind, Token.kind, h]

/-- So does the operator that it is. -/
theorem ofOperator_congr (op : Operator) (t t' : Token) (h : t.content = t'.content) :
    ofOperator op t = ofOperator op t' := by
  rw [ofOperator, ofOperator, Token.operator?, Token.operator?, h]

/-- So does whether it is an operator that binds tightly. -/
theorem binding?_congr (least : Nat) (t t' : Token) (h : t.content = t'.content) :
    binding? least t = binding? least t' := by
  rw [binding?, binding?, Token.operator?, Token.operator?, h]

/-- So does the name that it is. -/
theorem name?_congr (t t' : Token) (h : t.content = t'.content) : name? t = name? t' := by
  rw [name?, name?, h]

/-! ### Descents side by side -/

section

variable {start : Cursor → Prop} {same : α → α → Prop} {same' : β → β → Prop}

/-- What is cut short goes with anything. -/
theorem Matches.of_cutShort (o : Outcome α) : r.Matches same o .cutShort := by
  cases o <;> trivial

/-- What goes with a success is one, unless it is cut short. -/
theorem Matches.success {a : α} {after : Cursor} {o : Outcome α}
    (h : r.Matches same (.success a after) o) (hanswers : o ≠ .cutShort) :
    ∃ a' after', o = .success a' after' ∧ same a a' ∧ r.Beside after after' := by
  cases o with
  | success a' after' => exact ⟨a', after', rfl, h.1, h.2.1⟩
  | failure e after' => exact h.elim
  | cutShort => contradiction

/-- What goes with a failure is one, unless it is cut short. -/
theorem Matches.failure {e : SyntaxError} {after : Cursor} {o : Outcome α}
    (h : r.Matches same (.failure e after) o) (hanswers : o ≠ .cutShort) :
    ∃ e' after', o = .failure e' after' ∧ r.Mistakes e e' := by
  cases o with
  | success a after' => exact h.elim
  | failure e' after' => exact ⟨e', after', rfl, h⟩
  | cutShort => contradiction

namespace Parallel

/-- Descents that may start anywhere may start behind a token. -/
theorem begun {p p' : Descent α} (h : r.Parallel Cursor.Inhabited same p p') :
    r.Parallel Cursor.Begun same p p' := fun c c' hbeside hbegun => h c c' hbeside (.inl hbegun)

theorem pure {a a' : α} (h : same a a') :
    r.Parallel Cursor.Begun same (pure a : Descent α) (pure a') :=
  fun _ _ hbeside hbegun => ⟨h, hbeside, hbegun⟩

theorem fail (cause : SyntaxCause) {t t' : Token} (h : r.token t t') :
    r.Parallel start same (fail cause t) (fail cause t') := fun _ _ _ _ => ⟨rfl, h⟩

theorem cutShort (p : Descent α) : r.Parallel start same Descent.cutShort p :=
  fun _ _ _ _ => trivial

theorem spanFrom {t t' : Token} (h : r.token t t') : r.Parallel Cursor.Begun
    (fun s s' => r.left s = r.right s') (Descent.spanFrom t) (Descent.spanFrom t') := by
  intro c c' hbeside hbegun
  refine ⟨?_, hbeside, hbegun⟩
  obtain ⟨u, u', hu, hlast, hlast'⟩ := hbeside.last hbegun
  rw [hlast, hlast']
  exact r.between h hu

theorem take {choose : Token → Option α}
    (hchoose : ∀ t t' : Token, t.content = t'.content → choose t = choose t') (cause : SyntaxCause) :
    r.Parallel Cursor.Inhabited (fun x x' => r.token x.1 x'.1 ∧ x.2 = x'.2)
      (Descent.take choose cause) (Descent.take choose cause) := by
  intro c c' hbeside hinhabited
  have hcurrent := hbeside.current hinhabited
  unfold Descent.take
  rcases hbeside.uncons with ⟨hc, hc'⟩ | ⟨t, t', rest, rest', hc, hc', ht, hpass⟩
  · rw [hc, hc']
    exact ⟨rfl, hcurrent⟩
  · rw [hc, hc']
    simp only
    rw [hchoose t t' (r.content ht)]
    cases choose t' with
    | none => exact ⟨rfl, ht⟩
    | some a => exact ⟨⟨ht, rfl⟩, hpass, List.cons_ne_nil _ _⟩

theorem takeIf {choose : Token → Option α}
    (hchoose : ∀ t t' : Token, t.content = t'.content → choose t = choose t')
    {taken taken' : Token → α → Descent β} {otherwise otherwise' : Descent β}
    (htaken : ∀ t t' a, r.token t t' → r.Parallel Cursor.Begun same' (taken t a) (taken' t' a))
    (hother : r.Parallel Cursor.Begun same' otherwise otherwise') :
    r.Parallel Cursor.Begun same' (Descent.takeIf choose taken otherwise)
      (Descent.takeIf choose taken' otherwise') := by
  intro c c' hbeside hbegun
  unfold Descent.takeIf
  rcases hbeside.uncons with ⟨hc, hc'⟩ | ⟨t, t', rest, rest', hc, hc', ht, hpass⟩
  · rw [hc, hc']
    exact hother c c' hbeside hbegun
  · rw [hc, hc']
    simp only
    rw [hchoose t t' (r.content ht)]
    cases choose t' with
    | none => exact hother c c' hbeside hbegun
    | some a => exact htaken t t' a ht _ _ hpass (List.cons_ne_nil _ _)

/-- What follows a look at the token at hand. -/
theorem peek {f f' : Token → Descent α} (hstart : ∀ c, start c → c.Inhabited)
    (hf : ∀ t t', r.token t t' → r.Parallel start same (f t) (f' t')) :
    r.Parallel start same (Descent.peek >>= f) (Descent.peek >>= f') :=
  fun c c' hbeside hc => hf _ _ (hbeside.current (hstart c hc)) c c' hbeside hc

/-- Sequences go side by side if their parts do; behind the first part a token has been passed. -/
theorem bind {p p' : Descent α} {f f' : α → Descent β} (hp : r.Parallel start same p p')
    (hf : ∀ a a', same a a' → r.Parallel Cursor.Begun same' (f a) (f' a')) :
    r.Parallel start same' (p >>= f) (p' >>= f') := by
  intro c c' hbeside hc
  have hmatches := hp c c' hbeside hc
  change r.Matches same' (Descent.bind p f c) (Descent.bind p' f' c')
  unfold Descent.bind
  cases hpc : p c with
  | success a after =>
    rw [hpc] at hmatches
    cases hpc' : p' c' with
    | success a' after' =>
      rw [hpc'] at hmatches
      obtain ⟨hsame, hafter, hbegun⟩ := hmatches
      exact hf a a' hsame after after' hafter hbegun
    | failure e' after' =>
      rw [hpc'] at hmatches
      exact hmatches.elim
    | cutShort => exact .of_cutShort _
  | failure e after =>
    rw [hpc] at hmatches
    cases hpc' : p' c' with
    | success a' after' =>
      rw [hpc'] at hmatches
      exact hmatches.elim
    | failure e' after' =>
      rw [hpc'] at hmatches
      exact hmatches
    | cutShort => exact .of_cutShort _
  | cutShort => trivial

theorem map {p p' : Descent α} {f f' : α → β} (hp : r.Parallel start same p p')
    (hf : ∀ a a', same a a' → same' (f a) (f' a')) :
    r.Parallel start same' (f <$> p) (f' <$> p') :=
  hp.bind fun a a' h => pure (hf a a' h)

theorem expect (k : TokenKind) (context : Option String) :
    r.Parallel Cursor.Inhabited r.token (Descent.expect k context) (Descent.expect k context) :=
  (take (ofKind_congr k) _).bind fun _ _ h => pure h.1

theorem name (context : String) :
    r.Parallel Cursor.Inhabited (fun x x' => r.token x.1 x'.1 ∧ x.2 = x'.2) (Parser.name context)
      (Parser.name context) :=
  take name?_congr _

/-- A choice that is the same for both. -/
theorem ite {condition condition' : Prop} [Decidable condition] [Decidable condition']
    {p p' q q' : Descent α} (hiff : condition ↔ condition') (hp : r.Parallel start same p p')
    (hq : r.Parallel start same q q') :
    r.Parallel start same (if condition then p else q) (if condition' then p' else q') := by
  by_cases h : condition
  · rwa [if_pos h, if_pos (hiff.mp h)]
  · rwa [if_neg h, if_neg fun h' => h (hiff.mpr h')]

theorem checked (limit : Int) {blame blame' : Token} {m m' : Measured} (hblame : r.token blame blame')
    (h : r.Same m m') : r.Parallel Cursor.Begun r.Same (Parser.checked limit blame m)
      (Parser.checked limit blame' m') :=
  ite (by rw [h.height_eq]) (fail _ hblame) (pure h)

/-- What goes side by side with every amount of fuel that is not none goes so with none. -/
theorem of_fuel {p : Descent α} {q : Nat → Descent α} (hzero : q 0 = Descent.cutShort)
    (hsucc : ∀ fuel, r.Parallel start same p (q (fuel + 1))) :
    ∀ fuel, r.Parallel start same p (q fuel)
  | 0 => fun c _ _ _ => by
    rw [hzero]
    exact .of_cutShort (p c)
  | fuel + 1 => hsucc fuel

end Parallel

end

/-! ### Nodes -/

namespace Same

theorem number {s s' : Option Span} (value : Float) (h : r.left s = r.right s') :
    r.Same ⟨.number value s, 1, by simp [Expr.height]⟩
      ⟨.number value s', 1, by simp [Expr.height]⟩ := by
  rw [Same, Expr.through, Expr.through, h]

theorem var {s s' : Option Span} (name : String) (h : r.left s = r.right s') :
    r.Same ⟨.var name s, 1, by simp [Expr.height]⟩ ⟨.var name s', 1, by simp [Expr.height]⟩ := by
  rw [Same, Expr.through, Expr.through, h]

theorem binary (op : Operator) {a a' b b' : Measured} (ha : r.Same a a') (hb : r.Same b b') :
    r.Same (.binary op a b) (.binary op a' b') := by
  have hspan := r.join ha.span_eq hb.span_eq
  rw [Same] at ha hb
  rw [Same, Measured.binary, Measured.binary, Expr.through, Expr.through, ha, hb, hspan]

theorem call {s s' : Option Span} (name : String) {ms ms' : List Measured} (hs : r.SameAll ms ms')
    (h : r.left s = r.right s') : r.Same (.call name ms s) (.call name ms' s') := by
  rw [SameAll] at hs
  rw [Same, Measured.call, Measured.call, Expr.through, Expr.through, Expr.throughs_eq_map,
    Expr.throughs_eq_map, hs, h]

theorem cond {s s' : Option Span} {a a' b b' d d' : Measured} (ha : r.Same a a')
    (hb : r.Same b b') (hd : r.Same d d') (h : r.left s = r.right s') :
    r.Same (.cond a b d s) (.cond a' b' d' s') := by
  rw [Same] at ha hb hd
  rw [Same, Measured.cond, Measured.cond, Expr.through, Expr.through, ha, hb, hd, h]

/-- Loops need the same step, or none. -/
theorem loop {s s' : Option Span} (name : String) {a a' b b' body body' : Measured}
    {step step' : Option Measured} (ha : r.Same a a') (hb : r.Same b b')
    (hstep : (step.map Measured.expr).map (Expr.through r.left) =
      (step'.map Measured.expr).map (Expr.through r.right))
    (hbody : r.Same body body') (h : r.left s = r.right s') :
    r.Same (.loop name a b step body s) (.loop name a' b' step' body' s') := by
  rw [Same] at ha hb hbody
  change Expr.through _ (.loop _ _ _ _ _ _) = Expr.through _ (.loop _ _ _ _ _ _)
  rw [Expr.through_loop, Expr.through_loop, ha, hb, hstep, hbody, h]

end Same

/-! ### The descents of the grammar -/

section

variable {limit : Int} {e e' : Descent Measured}

namespace Parallel

variable (he : r.Parallel Cursor.Inhabited r.Same e e')

include he

theorem conditional {t t' : Token} (ht : r.token t t') : r.Parallel Cursor.Begun r.Same
    (Parser.conditional limit e t) (Parser.conditional limit e' t') :=
  he.begun.bind fun _ _ ha => (expect _ _).begun.bind fun _ _ _ =>
    he.begun.bind fun _ _ hb => (expect _ _).begun.bind fun _ _ _ =>
    he.begun.bind fun _ _ hd => (spanFrom ht).bind fun _ _ hs => checked _ ht (.cond ha hb hd hs)

theorem loopStep : r.Parallel Cursor.Begun
    (fun step step' => (step.map Measured.expr).map (Expr.through r.left) =
      (step'.map Measured.expr).map (Expr.through r.right))
    (Parser.loopStep e) (Parser.loopStep e') :=
  takeIf (ofKind_congr _) (fun _ _ _ _ => he.begun.map fun _ _ h => congrArg some h) (pure rfl)

theorem forLoop {t t' : Token} (ht : r.token t t') : r.Parallel Cursor.Begun r.Same
    (Parser.forLoop limit e t) (Parser.forLoop limit e' t') := by
  unfold Parser.forLoop
  apply (name _).begun.bind
  rintro ⟨u, counter⟩ ⟨u', counter'⟩ ⟨_, rfl⟩
  apply (take (ofOperator_congr _) _).begun.bind
  intro _ _ _
  apply he.begun.bind
  intro _ _ ha
  apply (expect _ _).begun.bind
  intro _ _ _
  apply he.begun.bind
  intro _ _ hb
  apply he.loopStep.bind
  intro _ _ hstep
  apply (expect _ _).begun.bind
  intro _ _ _
  apply he.begun.bind
  intro _ _ hbody
  apply (spanFrom ht).bind
  intro _ _ hs
  exact checked _ ht (.loop _ ha hb hstep hbody hs)

end Parallel

namespace Parallel

theorem grouping {chain chain' : Nesting → Descent Measured}
    (h : ∀ n, r.Parallel Cursor.Inhabited r.Same (chain n) (chain' n)) (n : Nesting) {t t' : Token}
    (ht : r.token t t') : r.Parallel Cursor.Begun r.Same (Parser.grouping n chain t)
      (Parser.grouping n chain' t') :=
  ite Iff.rfl (fail _ ht) <|
    (h _).begun.bind fun _ _ hinner => (expect _ _).begun.bind fun _ _ _ => pure hinner

theorem variableOrCall {arguments arguments' : Descent (List Measured)}
    (h : r.Parallel Cursor.Inhabited r.SameAll arguments arguments') (name : String) {t t' : Token}
    (ht : r.token t t') : r.Parallel Cursor.Begun r.Same
      (Parser.variableOrCall limit arguments t name)
      (Parser.variableOrCall limit arguments' t' name) := by
  have hvalues : r.Parallel Cursor.Begun r.SameAll (argumentsIfAny arguments)
      (argumentsIfAny arguments') :=
    peek (fun _ hbegun => .inl hbegun) fun _ _ hnext =>
      ite (by rw [kind_eq hnext]) (pure rfl) h.begun
  have hcall : r.Parallel Cursor.Begun r.Same (callArguments limit arguments t name)
      (callArguments limit arguments' t' name) :=
    hvalues.bind fun _ _ hms => (expect _ _).begun.bind fun _ _ _ =>
      (spanFrom ht).bind fun _ _ hs => checked _ ht (.call _ hms hs)
  have hvar : r.Parallel Cursor.Begun r.Same (variableRef t name) (variableRef t' name) :=
    (spanFrom ht).bind fun _ _ hs => pure (.var _ hs)
  exact takeIf (ofKind_congr _) (fun _ _ _ _ => hcall) hvar

theorem rightOperand {operations operations' : Measured → Descent Measured}
    (h : ∀ m m', r.Same m m' → r.Parallel Cursor.Begun r.Same (operations m) (operations' m'))
    (op : Operator) {m m' : Measured} (hm : r.Same m m') : r.Parallel Cursor.Begun r.Same
      (Parser.rightOperand op operations m) (Parser.rightOperand op operations' m') :=
  peek (fun _ hbegun => .inl hbegun) fun _ _ hnext =>
    ite (by rw [binding?_congr _ _ _ (r.content hnext)]) (h _ _ hm) (pure hm)

end Parallel

end

/-- With some fuel for the first run and any for the second, the descents into expressions go side
by side. -/
structure ParallelWithin (r : Correspondence) (fuel : Nat) : Prop where
  expression : ∀ fuel' n,
    r.Parallel Cursor.Inhabited r.Same (expressionWithin fuel n) (expressionWithin fuel' n)
  chain : ∀ fuel' n,
    r.Parallel Cursor.Inhabited r.Same (chainWithin fuel n) (chainWithin fuel' n)
  primary : ∀ fuel' n,
    r.Parallel Cursor.Inhabited r.Same (primaryWithin fuel n) (primaryWithin fuel' n)
  operations : ∀ fuel' n least m m', r.Same m m' → r.Parallel Cursor.Begun r.Same
    (operationsWithin fuel n least m) (operationsWithin fuel' n least m')
  arguments : ∀ fuel' n,
    r.Parallel Cursor.Inhabited r.SameAll (argumentsWithin fuel n) (argumentsWithin fuel' n)

namespace ParallelWithin

/-- Without fuel all is cut short. -/
theorem zero (r : Correspondence) : ParallelWithin r 0 :=
  ⟨fun _ _ => .cutShort _, fun _ _ => .cutShort _, fun _ _ => .cutShort _,
    fun _ _ _ _ _ _ => .cutShort _, fun _ _ => .cutShort _⟩

variable {fuel : Nat} (within : ParallelWithin r fuel)

include within

theorem expression_succ (fuel' : Nat) (n : Nesting) : r.Parallel Cursor.Inhabited r.Same
    (expressionWithin (fuel + 1) n) (expressionWithin fuel' n) := by
  apply Parallel.of_fuel (q := fun fuel => expressionWithin fuel n) rfl
  intro fuel'
  apply Parallel.ite Iff.rfl
  · exact .peek (fun _ h => h) fun _ _ hnext => .fail _ hnext
  · exact within.chain fuel' _

theorem chain_succ (fuel' : Nat) (n : Nesting) : r.Parallel Cursor.Inhabited r.Same
    (chainWithin (fuel + 1) n) (chainWithin fuel' n) := by
  apply Parallel.of_fuel (q := fun fuel => chainWithin fuel n) rfl
  intro fuel'
  apply (within.primary fuel' n).bind
  exact within.operations fuel' n 0

theorem primary_succ (fuel' : Nat) (n : Nesting) : r.Parallel Cursor.Inhabited r.Same
    (primaryWithin (fuel + 1) n) (primaryWithin fuel' n) := by
  apply Parallel.of_fuel (q := fun fuel => primaryWithin fuel n) rfl
  intro fuel'
  apply (Parallel.take opening?_congr _).bind
  rintro ⟨t, opening⟩ ⟨t', opening'⟩ ⟨ht, rfl⟩
  cases opening with
  | number value => exact (Parallel.spanFrom ht).bind fun _ _ hs => .pure (.number value hs)
  | identifier name => exact .variableOrCall (within.arguments fuel' n) name ht
  | group => exact .grouping (within.chain fuel') n ht
  | conditional => exact (within.expression fuel' n).conditional ht
  | loop => exact (within.expression fuel' n).forLoop ht

theorem operations_succ (fuel' : Nat) (n : Nesting) (least : Nat) (m m' : Measured)
    (hm : r.Same m m') : r.Parallel Cursor.Begun r.Same (operationsWithin (fuel + 1) n least m)
      (operationsWithin fuel' n least m') := by
  apply Parallel.of_fuel (q := fun fuel => operationsWithin fuel n least m') rfl
  intro fuel'
  apply Parallel.takeIf (binding?_congr least)
  · intro t t' op ht
    apply (within.primary fuel' n).begun.bind
    intro right right' hright
    apply (Parallel.rightOperand (within.operations fuel' n (op.precedence + 1)) op hright).bind
    intro right right' hright
    apply (Parallel.checked n.limit ht (.binary op hm hright)).bind
    exact within.operations fuel' n least
  · exact .pure hm

theorem arguments_succ (fuel' : Nat) (n : Nesting) : r.Parallel Cursor.Inhabited r.SameAll
    (argumentsWithin (fuel + 1) n) (argumentsWithin fuel' n) := by
  apply Parallel.of_fuel (q := fun fuel => argumentsWithin fuel n) rfl
  intro fuel'
  apply (within.expression fuel' n).bind
  intro m m' hm
  apply Parallel.peek fun _ hbegun => .inl hbegun
  intro next next' hnext
  apply Parallel.ite (by rw [kind_eq hnext])
  · exact .pure (congrArg (fun e => [e]) hm)
  · apply (Parallel.take (ofKind_congr _) _).begun.bind
    intro _ _ _
    apply (within.arguments fuel' n).begun.bind
    intro ms ms' hms
    apply Parallel.pure
    rw [Same] at hm
    rw [SameAll] at hms
    simp only [SameAll, List.map_cons, hm, hms]

end ParallelWithin

/-- The descents into expressions go side by side, whatever the fuel of either. -/
theorem parallelWithin (r : Correspondence) (fuel : Nat) : ParallelWithin r fuel := by
  induction fuel with
  | zero => exact .zero r
  | succ fuel within =>
    exact ⟨within.expression_succ, within.chain_succ, within.primary_succ, within.operations_succ,
      within.arguments_succ⟩

namespace Parallel

/-- Parameters carry no locations, so they are equal. -/
theorem parametersWithin (fuel fuel' : Nat) (function : String) (seen : List String) :
    r.Parallel Cursor.Begun Eq (Parser.parametersWithin fuel function seen)
      (Parser.parametersWithin fuel' function seen) := by
  induction fuel generalizing fuel' seen with
  | zero => exact .cutShort _
  | succ fuel ih =>
    apply of_fuel (q := fun fuel => Parser.parametersWithin fuel function seen) rfl
    intro fuel'
    apply takeIf name?_congr
    · intro t t' parameter ht
      apply ite Iff.rfl
      · exact .fail _ ht
      · exact takeIf (ofKind_congr _) (fun _ _ _ _ => ih fuel' _) (ih fuel' _)
    · exact .pure rfl

/-- Prototypes are the same through the two views. -/
theorem prototypeWithin (fuel fuel' : Nat) : r.Parallel Cursor.Inhabited
    (fun p p' => p.through r.left = p'.through r.right) (Parser.prototypeWithin fuel)
      (Parser.prototypeWithin fuel') := by
  unfold Parser.prototypeWithin
  apply (name _).bind
  rintro ⟨t, function⟩ ⟨t', function'⟩ ⟨ht, rfl⟩
  apply (expect _ _).begun.bind
  intro _ _ _
  apply (parametersWithin fuel fuel' function []).bind
  rintro params _ rfl
  apply (expect _ _).begun.bind
  intro _ _ _
  apply (spanFrom ht).bind
  intro _ _ hs
  apply pure
  rw [Prototype.through, Prototype.through, hs]

theorem foreignWithin (fuel fuel' : Nat) : r.Parallel Cursor.Inhabited
    (fun p p' => p.through r.left = p'.through r.right) (Parser.foreignWithin fuel)
      (Parser.foreignWithin fuel') :=
  (expect _ _).bind fun _ _ _ => (prototypeWithin fuel fuel').begun.bind fun _ _ hp =>
    (expect _ _).begun.bind fun _ _ _ => pure hp

theorem definitionWithin (fuel fuel' : Nat) (limit : Int) : r.Parallel Cursor.Inhabited
    (fun d d' => d.through r.left = d'.through r.right) (Parser.definitionWithin fuel limit)
      (Parser.definitionWithin fuel' limit) := by
  unfold Parser.definitionWithin
  apply (expect _ _).bind
  intro _ _ _
  apply (prototypeWithin fuel fuel').begun.bind
  intro p p' hp
  apply ((parallelWithin r fuel).expression fuel' _).begun.bind
  intro body body' hbody
  apply (expect _ _).begun.bind
  intro _ _ _
  apply pure
  rw [Same] at hbody
  rw [Definition.through, Definition.through, hp, hbody]

/-- The descents into statements go side by side. -/
theorem statementWithin (fuel fuel' : Nat) (limit : Int) : r.Parallel Cursor.Inhabited
    (fun o o' => o.map (Statement.through r.left) = o'.map (Statement.through r.right))
    (Parser.statementWithin fuel limit) (Parser.statementWithin fuel' limit) := by
  have formula : r.Parallel Cursor.Inhabited
      (fun o o' => o.map (Statement.through r.left) = o'.map (Statement.through r.right))
      (do
        let e ← expressionWithin fuel { limit }
        let _ ← Descent.expect (.punctuation .semicolon) "after top-level expression"
        return some (Statement.expression e.expr))
      (do
        let e ← expressionWithin fuel' { limit }
        let _ ← Descent.expect (.punctuation .semicolon) "after top-level expression"
        return some (Statement.expression e.expr)) :=
    ((parallelWithin r fuel).expression fuel' _).bind fun _ _ he =>
      (expect _ _).begun.bind fun _ _ _ => pure (congrArg (fun e => some (Statement.expression e)) he)
  apply peek fun _ h => h
  intro next next' hnext
  rw [kind_eq hnext]
  cases next'.kind with
  | keyword w =>
    cases w with
    | externWord =>
      exact (foreignWithin fuel fuel').bind fun _ _ hp =>
        pure (congrArg (fun p => some (Statement.foreign p)) hp)
    | defWord =>
      exact (definitionWithin fuel fuel' limit).bind fun _ _ hd =>
        pure (congrArg (fun d => some (Statement.definition d)) hd)
    | _ => exact formula
  | punctuation m =>
    cases m with
    | semicolon => exact (expect _ _).bind fun _ _ _ => pure rfl
    | _ => exact formula
  | _ => exact formula

end Parallel

end Correspondence

end Formulary.Parser
