import Formulary.Parser.Error

/-!
# Descending through a token list

A `Descent` reads tokens from a cursor. It succeeds with a value, fails with a syntax error, or is
cut short because it was given too little fuel; in the first two cases it says where the cursor
stands, since a failure leaves the cursor where it was found. `Answers` is the fact by which the
parser shows that its fuel is enough: a bound on the tokens ahead within which a descent is never
cut short, and the number of tokens that it takes when it succeeds.
-/

namespace Formulary.Parser

/-- A place in a token list: the tokens before it, the nearest first, and the tokens after it. -/
structure Cursor where
  consumed : List Token := []
  rest : List Token

namespace Cursor

/-- The number of tokens before the cursor. -/
def index (c : Cursor) : Nat := c.consumed.length

/-- The location of the token before the cursor. -/
def lastLocation (c : Cursor) : Option Location := c.consumed.head?.bind Token.location

/-- The token after the cursor. Behind the last token stands the end of the input, which has the
location of that last token. -/
def current (c : Cursor) : Token :=
  match c.rest with
  | t :: _ => t
  | [] => { content := .endOfInput, lexeme := "", location := c.lastLocation }

/-- The cursor at the beginning of a token list. -/
def start (tokens : List Token) : Cursor := { rest := tokens }

/-- The whole token list. -/
def tokens (c : Cursor) : List Token := c.consumed.reverse ++ c.rest

/-- The second cursor is further on in the same token list, or at the same place. -/
structure Reaches (c after : Cursor) : Prop where
  tokens : after.tokens = c.tokens
  index : c.index ≤ after.index

theorem Reaches.refl (c : Cursor) : c.Reaches c := ⟨rfl, Nat.le_refl _⟩

theorem Reaches.trans {a b c : Cursor} (h : a.Reaches b) (h' : b.Reaches c) : a.Reaches c :=
  ⟨h'.tokens.trans h.tokens, Nat.le_trans h.index h'.index⟩

theorem Reaches.pass {c : Cursor} {t : Token} {rest : List Token} (h : c.rest = t :: rest) :
    c.Reaches ⟨t :: c.consumed, rest⟩ :=
  ⟨by simp [Cursor.tokens, h], Nat.le_succ _⟩

end Cursor

/-- What a descent comes to. -/
inductive Outcome (α : Type) where
  | success (value : α) (after : Cursor)
  | failure (e : SyntaxError) (after : Cursor)
  | cutShort

/-- A reader of tokens. -/
def Descent (α : Type) : Type := Cursor → Outcome α

namespace Descent

variable {α β : Type}

/-- Run one descent after another. -/
protected def bind (p : Descent α) (f : α → Descent β) : Descent β := fun c =>
  match p c with
  | .success a after => f a after
  | .failure e after => .failure e after
  | .cutShort => .cutShort

instance : Monad Descent where
  pure a c := .success a c
  bind := Descent.bind

/-- Out of fuel. -/
def cutShort : Descent α := fun _ => .cutShort

/-- Fail, leaving the cursor where it is. -/
def fail (cause : SyntaxCause) (token : Token) : Descent α := fun c => .failure ⟨cause, token⟩ c

/-- The token after the cursor. -/
def peek : Descent Token := fun c => .success c.current c

/-- Take the token after the cursor if it is one of those chosen, else fail at it. -/
def take (choose : Token → Option α) (cause : SyntaxCause) : Descent (Token × α) := fun c =>
  match c.rest with
  | [] => .failure ⟨cause, c.current⟩ c
  | t :: rest =>
    match choose t with
    | some a => .success (t, a) ⟨t :: c.consumed, rest⟩
    | none => .failure ⟨cause, t⟩ c

/-- Take the token after the cursor if it is one of those chosen, and go on with it; else go on
without taking one. -/
def takeIf (choose : Token → Option α) (taken : Token → α → Descent β) (otherwise : Descent β) :
    Descent β := fun c =>
  match c.rest with
  | [] => otherwise c
  | t :: rest =>
    match choose t with
    | some a => taken t a ⟨t :: c.consumed, rest⟩
    | none => otherwise c

/-- Choose the tokens of one kind. -/
def ofKind (k : TokenKind) (t : Token) : Option Unit := if t.kind = k then some () else none

/-- Take a token of the given kind, or fail. -/
def expect (k : TokenKind) (context : Option String := none) : Descent Token := do
  let taken ← take (ofKind k) (.expected (.kind k) context)
  return taken.1

/-- The span from a token to the last token taken. -/
def spanFrom (first : Token) : Descent (Option Span) := fun c =>
  .success (Span.between? first.location c.lastLocation) c

/-- Not cut short, and at least `least` tokens fewer ahead than the given number on success. -/
def Leaves (least ahead : Nat) : Outcome α → Prop
  | .success _ after => after.rest.length + least ≤ ahead
  | .failure _ _ => True
  | .cutShort => False

/-- Within `bound` tokens ahead the descent is not cut short, and it takes `least` tokens or more
when it succeeds. -/
def Answers (least bound : Nat) (p : Descent α) : Prop :=
  ∀ c : Cursor, c.rest.length ≤ bound → Leaves least c.rest.length (p c)

theorem Answers.mono {least less bound : Nat} {p : Descent α} (h : Answers least bound p)
    (le : less ≤ least) : Answers less bound p := by
  intro c hc
  have := h c hc
  cases hp : p c with
  | success a after =>
    rw [hp] at this
    exact Nat.le_trans (Nat.add_le_add_left le _) this
  | failure e after => trivial
  | cutShort =>
    rw [hp] at this
    exact this

theorem answers_pure (bound : Nat) (a : α) : Answers 0 bound (pure a : Descent α) :=
  fun _ _ => Nat.le_refl _

theorem answers_fail (least bound : Nat) (cause : SyntaxCause) (token : Token) :
    Answers least bound (fail cause token : Descent α) :=
  fun _ _ => trivial

theorem answers_peek (bound : Nat) : Answers 0 bound peek := fun _ _ => Nat.le_refl _

theorem answers_spanFrom (bound : Nat) (first : Token) : Answers 0 bound (spanFrom first) :=
  fun _ _ => Nat.le_refl _

theorem answers_take (bound : Nat) (choose : Token → Option α) (cause : SyntaxCause) :
    Answers 1 bound (take choose cause) := by
  rintro ⟨consumed, rest⟩ _
  cases rest with
  | nil => trivial
  | cons t rest =>
    simp only [take]
    cases choose t with
    | none => trivial
    | some a => exact Nat.le_refl _

theorem answers_takeIf {bound : Nat} {choose : Token → Option α}
    {taken : Token → α → Descent β} {otherwise : Descent β}
    (h : 0 < bound → ∀ t a, Answers 0 (bound - 1) (taken t a)) (h' : Answers 0 bound otherwise) :
    Answers 0 bound (takeIf choose taken otherwise) := by
  rintro ⟨consumed, rest⟩ hc
  cases rest with
  | nil => exact h' _ hc
  | cons t rest =>
    simp only [takeIf]
    simp only [List.length_cons] at hc
    cases choose t with
    | none => exact h' _ hc
    | some a =>
      have h1 := h (by omega) t a ⟨t :: consumed, rest⟩ (by simp only; omega)
      simp only
      cases ht : taken t a ⟨t :: consumed, rest⟩ with
      | success b after =>
        rw [ht] at h1
        exact Nat.le_succ_of_le h1
      | failure e after => trivial
      | cutShort =>
        rw [ht] at h1
        exact h1

/-- Bounds add up along a sequence. -/
theorem Answers.bind {least more bound : Nat} {p : Descent α} {f : α → Descent β}
    (hp : Answers least bound p)
    (hf : least ≤ bound → ∀ a, Answers more (bound - least) (f a)) :
    Answers (least + more) bound (p >>= f) := by
  intro c hc
  have h1 := hp c hc
  change Leaves _ _ (Descent.bind p f c)
  unfold Descent.bind
  cases hpc : p c with
  | cutShort =>
    rw [hpc] at h1
    exact h1
  | failure e after => trivial
  | success a after =>
    rw [hpc] at h1
    simp only [Leaves] at h1
    have h2 := hf (by omega) a after (by omega)
    simp only
    cases hfa : f a after with
    | cutShort =>
      rw [hfa] at h2
      exact h2
    | failure e after => trivial
    | success b last =>
      rw [hfa] at h2
      simp only [Leaves] at h2 ⊢
      omega

/-- In a sequence of which no part need take a token, the bound stays. -/
theorem Answers.seq {bound : Nat} {p : Descent α} {f : α → Descent β}
    (hp : Answers 0 bound p) (hf : ∀ a, Answers 0 bound (f a)) : Answers 0 bound (p >>= f) :=
  Answers.bind hp fun _ => hf

/-- Behind a part that takes a token, the bound is smaller by one. -/
theorem Answers.after {bound : Nat} {p : Descent α} {f : α → Descent β}
    (hp : Answers 1 bound p) (hf : 0 < bound → ∀ a, Answers 0 (bound - 1) (f a)) :
    Answers 1 bound (p >>= f) :=
  Answers.bind hp hf

/-- What answers within a bound answers within a smaller one. -/
theorem Answers.within {least bound smaller : Nat} {p : Descent α} (h : Answers least bound p)
    (le : smaller ≤ bound) : Answers least smaller p :=
  fun c hc => h c (Nat.le_trans hc le)

theorem Answers.ite {least bound : Nat} {condition : Prop} [Decidable condition]
    {p q : Descent α} (hp : Answers least bound p) (hq : Answers least bound q) :
    Answers least bound (if condition then p else q) := by
  split
  · exact hp
  · exact hq

theorem answers_expect (bound : Nat) (k : TokenKind) (context : Option String) :
    Answers 1 bound (expect k context) :=
  (answers_take bound _ _).after fun _ _ => answers_pure _ _

/-- What takes a token answers also where none need be taken. -/
theorem Answers.loose {bound : Nat} {p : Descent α} (h : Answers 1 bound p) :
    Answers 0 bound p := h.mono (Nat.zero_le 1)

/-- The value or the error of a descent that is not cut short, and the cursor after it. -/
def finish (p : Descent α) (c : Cursor) (h : p c ≠ .cutShort) : Except SyntaxError α × Cursor :=
  match hc : p c with
  | .success a after => (.ok a, after)
  | .failure e after => (.error e, after)
  | .cutShort => absurd hc h

/-- The answer of a descent is a value where it succeeds. -/
theorem finish_eq_ok {p : Descent α} {c : Cursor} (h : p c ≠ .cutShort)
    {a : α} {after : Cursor} :
    finish p c h = (.ok a, after) ↔ p c = .success a after := by
  unfold finish
  split
  · next a' after' hc => simp [hc]
  · next e after' hc => simp [hc]
  · next hc => exact absurd hc h

/-- The answer of a descent is an error where it fails. -/
theorem finish_eq_error {p : Descent α} {c : Cursor} (h : p c ≠ .cutShort)
    {e : SyntaxError} {after : Cursor} :
    finish p c h = (.error e, after) ↔ p c = .failure e after := by
  unfold finish
  split
  · next a after' hc => simp [hc]
  · next e' after' hc => simp [hc]
  · next hc => exact absurd hc h

theorem Answers.ne_cutShort {least bound : Nat} {p : Descent α} (h : Answers least bound p)
    {c : Cursor} (hc : c.rest.length ≤ bound) : p c ≠ .cutShort := by
  intro e
  have := h c hc
  rw [e] at this
  exact this

/-- Where an outcome has a cursor, it is at the given one or further on. -/
def Reached (c : Cursor) : Outcome α → Prop
  | .success _ after => c.Reaches after
  | .failure _ after => c.Reaches after
  | .cutShort => True

/-- Whatever it comes to, the descent leaves the cursor at the same place or further on. -/
def Moves (p : Descent α) : Prop := ∀ c : Cursor, Reached c (p c)

theorem Reached.from {a b : Cursor} {o : Outcome α} (h : a.Reaches b) (ho : Reached b o) :
    Reached a o := by
  cases o with
  | success _ _ => exact h.trans ho
  | failure _ _ => exact h.trans ho
  | cutShort => trivial

theorem moves_pure (a : α) : Moves (pure a : Descent α) := fun c => .refl c

theorem moves_cutShort : Moves (cutShort : Descent α) := fun _ => trivial

theorem moves_fail (cause : SyntaxCause) (token : Token) : Moves (fail cause token : Descent α) :=
  fun c => .refl c

theorem moves_peek : Moves peek := fun c => .refl c

theorem moves_spanFrom (first : Token) : Moves (spanFrom first) := fun c => .refl c

theorem moves_take (choose : Token → Option α) (cause : SyntaxCause) :
    Moves (take choose cause) := by
  rintro ⟨consumed, rest⟩
  cases rest with
  | nil => exact .refl _
  | cons t rest =>
    simp only [take]
    cases choose t with
    | none => exact .refl _
    | some a => exact .pass rfl

theorem Moves.takeIf {choose : Token → Option α} {taken : Token → α → Descent β}
    {otherwise : Descent β} (h : ∀ t a, Moves (taken t a)) (h' : Moves otherwise) :
    Moves (takeIf choose taken otherwise) := by
  rintro ⟨consumed, rest⟩
  cases rest with
  | nil => exact h' _
  | cons t rest =>
    simp only [Descent.takeIf]
    cases choose t with
    | none => exact h' _
    | some a => exact .from (.pass rfl) (h t a _)

theorem Moves.bind {p : Descent α} {f : α → Descent β} (hp : Moves p) (hf : ∀ a, Moves (f a)) :
    Moves (p >>= f) := by
  intro c
  have hfirst := hp c
  change Reached c (Descent.bind p f c)
  unfold Descent.bind
  cases hpc : p c with
  | cutShort => trivial
  | failure e after =>
    rw [hpc] at hfirst
    exact hfirst
  | success a after =>
    rw [hpc] at hfirst
    exact .from hfirst (hf a after)

theorem moves_expect (k : TokenKind) (context : Option String) : Moves (expect k context) :=
  (moves_take _ _).bind fun _ => moves_pure _

end Descent

end Formulary.Parser
