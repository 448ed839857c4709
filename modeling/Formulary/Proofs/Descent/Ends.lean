import Formulary.Parser.Grammar

/-!
# What descents end in

`Outcome.Ends good bad` is the contract of one run of a descent: `good` holds of its value and of
the cursor after a success, `bad` of its error and of the cursor after a failure. A run that is cut
short meets every contract, so contracts can be proved for any fuel by induction on it; that a run
is not cut short is what `Answers` says. The rules follow the shape of a descent.
-/

namespace Formulary.Parser

variable {α β : Type}

/-- The contract of an outcome. Nothing is said of one that is cut short. -/
def Outcome.Ends (good : α → Cursor → Prop) (bad : SyntaxError → Cursor → Prop) :
    Outcome α → Prop
  | .success a after => good a after
  | .failure e after => bad e after
  | .cutShort => True

namespace Outcome

variable {good good' : α → Cursor → Prop} {bad bad' : SyntaxError → Cursor → Prop}

/-- A contract may be weakened. -/
theorem Ends.mono {o : Outcome α} (h : o.Ends good bad) (hgood : ∀ a after, good a after → good' a after)
    (hbad : ∀ e after, bad e after → bad' e after) : o.Ends good' bad' := by
  cases o with
  | success a after => exact hgood a after h
  | failure e after => exact hbad e after h
  | cutShort => trivial

/-- What follows from one contract of an outcome may be shown with that contract at hand. -/
theorem Ends.mp {o : Outcome α}
    (h : o.Ends (fun x after => good x after → good' x after) fun _ _ => True)
    (hgood : o.Ends good bad) : o.Ends good' fun _ _ => True := by
  cases o with
  | success x after => exact h hgood
  | failure e after => trivial
  | cutShort => trivial

/-- What always holds is a contract of every outcome. -/
theorem Ends.of_forall {o : Outcome α} (hgood : ∀ a after, good a after)
    (hbad : ∀ e after, bad e after) : o.Ends good bad := by
  cases o with
  | success a after => exact hgood a after
  | failure e after => exact hbad e after
  | cutShort => trivial

end Outcome

namespace Cursor

/-- The cursor behind a token that stands in front of the given rest. -/
def pass (c : Cursor) (t : Token) (rest : List Token) : Cursor := ⟨t :: c.consumed, rest⟩

/-- One token is passed. -/
@[simp] theorem index_pass (c : Cursor) (t : Token) (rest : List Token) :
    (c.pass t rest).index = c.index + 1 := rfl

/-- From one cursor to another the tokens with the given contents are passed. -/
def Spells (c : Cursor) (words : List TokenContent) (after : Cursor) : Prop :=
  ∃ ts : List Token, ts.map Token.content = words ∧ c.rest = ts ++ after.rest ∧
    after.consumed = ts.reverse ++ c.consumed

/-- Staying passes nothing. -/
theorem Spells.refl (c : Cursor) : c.Spells [] c := ⟨[], rfl, rfl, rfl⟩

/-- Passing one token. -/
theorem Spells.one {c : Cursor} {t : Token} {rest : List Token} (h : c.rest = t :: rest) :
    c.Spells [t.content] (c.pass t rest) := ⟨[t], rfl, h, rfl⟩

/-- Passing some tokens and then others. -/
theorem Spells.trans {a b c : Cursor} {words more : List TokenContent} (h : a.Spells words b)
    (h' : b.Spells more c) : a.Spells (words ++ more) c := by
  obtain ⟨ts, rfl, hrest, hconsumed⟩ := h
  obtain ⟨us, rfl, hrest', hconsumed'⟩ := h'
  refine ⟨ts ++ us, List.map_append, ?_, ?_⟩
  · rw [hrest, hrest', List.append_assoc]
  · rw [hconsumed', hconsumed, List.reverse_append, List.append_assoc]

/-- The cursor moves by the number of tokens passed. -/
theorem Spells.index_eq {c after : Cursor} {words : List TokenContent} (h : c.Spells words after) :
    after.index = c.index + words.length := by
  obtain ⟨ts, rfl, _, hconsumed⟩ := h
  simp only [index, hconsumed, List.length_append, List.length_reverse, List.length_map]
  omega

end Cursor

namespace Descent

variable {good : α → Cursor → Prop} {bad : SyntaxError → Cursor → Prop} {c : Cursor}

@[simp] theorem ends_pure (a : α) : ((pure a : Descent α) c).Ends good bad ↔ good a c := Iff.rfl

@[simp] theorem ends_fail (cause : SyntaxCause) (t : Token) :
    ((fail cause t : Descent α) c).Ends good bad ↔ bad ⟨cause, t⟩ c := Iff.rfl

@[simp] theorem ends_peek {good : Token → Cursor → Prop} :
    (peek c).Ends good bad ↔ good c.current c := Iff.rfl

@[simp] theorem ends_spanFrom {good : Option Span → Cursor → Prop} (first : Token) :
    (spanFrom first c).Ends good bad ↔
      good (Span.between? first.location c.lastLocation) c := Iff.rfl

/-- One descent after another: the contract of the first is that of the second afterwards. -/
@[simp] theorem ends_bind {good : β → Cursor → Prop} (p : Descent α) (f : α → Descent β) :
    ((p >>= f) c).Ends good bad ↔
      (p c).Ends (fun a after => (f a after).Ends good bad) bad := by
  change (Descent.bind p f c).Ends good bad ↔ _
  unfold Descent.bind
  cases p c <;> exact Iff.rfl

/-- Applying a function to the value of a descent. -/
@[simp] theorem ends_map {good : β → Cursor → Prop} (f : α → β) (p : Descent α) :
    ((f <$> p) c).Ends good bad ↔ (p c).Ends (fun a after => good (f a) after) bad :=
  ends_bind p (pure ∘ f)

/-- Taking a token: it is chosen and passed, or it is the token to blame. -/
theorem ends_take {good : Token × α → Cursor → Prop} {choose : Token → Option α}
    {cause : SyntaxCause}
    (hgood : ∀ t rest a, c.rest = t :: rest → choose t = some a → good (t, a) (c.pass t rest))
    (hbad : bad ⟨cause, c.current⟩ c) : (take choose cause c).Ends good bad := by
  unfold take
  cases hrest : c.rest with
  | nil => exact hbad
  | cons t rest =>
    simp only
    cases hchoose : choose t with
    | none =>
      have hcurrent : c.current = t := by rw [Cursor.current, hrest]
      rw [← hcurrent]
      exact hbad
    | some a => exact hgood t rest a hrest hchoose

/-- Taking a token or going on without one. -/
theorem ends_takeIf {good : β → Cursor → Prop} {choose : Token → Option α}
    {taken : Token → α → Descent β} {otherwise : Descent β}
    (htaken : ∀ t rest a, c.rest = t :: rest → choose t = some a →
      (taken t a (c.pass t rest)).Ends good bad)
    (hother : (∀ t rest, c.rest = t :: rest → choose t = none) → (otherwise c).Ends good bad) :
    (takeIf choose taken otherwise c).Ends good bad := by
  unfold takeIf
  cases hrest : c.rest with
  | nil => exact hother (by simp [hrest])
  | cons t rest =>
    simp only
    cases hchoose : choose t with
    | none => exact hother (by simp [hrest, hchoose])
    | some a => exact htaken t rest a hrest hchoose

/-- A token that was chosen for its kind has that kind. -/
theorem kind_of_ofKind {t : Token} {k : TokenKind} {u : Unit} (h : ofKind k t = some u) :
    t.kind = k := by
  unfold ofKind at h
  split at h
  · next hk => exact hk
  · contradiction

/-- Taking a token of one kind. -/
theorem ends_expect {good : Token → Cursor → Prop} {k : TokenKind} {context : Option String}
    (hgood : ∀ t rest, c.rest = t :: rest → t.kind = k → good t (c.pass t rest))
    (hbad : bad ⟨.expected (.kind k) context, c.current⟩ c) :
    (expect k context c).Ends good bad := by
  refine (ends_bind _ _).mpr (ends_take (fun t rest _ hrest hchoose => ?_) hbad)
  exact hgood t rest hrest (kind_of_ofKind hchoose)

/-- A node is accepted if it has no more levels than the limit. -/
theorem ends_checked {good : Measured → Cursor → Prop} {limit : Int} {blame : Token} {m : Measured}
    (hgood : (m.height : Int) ≤ limit → good m c)
    (hbad : limit < m.height → bad ⟨.nestingTooDeep limit, blame⟩ c) :
    (checked limit blame m c).Ends good bad := by
  unfold checked
  split
  · next h => exact hbad h
  · next h => exact hgood (Int.not_lt.mp h)

/-- A descent that keeps to a contract and is not cut short answers as the contract says. -/
theorem finish_of_ends {good : α → Cursor → Prop} {bad : SyntaxError → Cursor → Prop}
    {p : Descent α} (hends : (p c).Ends good bad) (h : p c ≠ .cutShort) :
    (∃ a after, finish p c h = (.ok a, after) ∧ good a after) ∨
      ∃ e after, finish p c h = (.error e, after) ∧ bad e after := by
  cases hpc : p c with
  | success a after =>
    rw [hpc] at hends
    exact .inl ⟨a, after, (finish_eq_ok h).mpr hpc, hends⟩
  | failure e after =>
    rw [hpc] at hends
    exact .inr ⟨e, after, (finish_eq_error h).mpr hpc, hends⟩
  | cutShort => exact absurd hpc h

end Descent

end Formulary.Parser
