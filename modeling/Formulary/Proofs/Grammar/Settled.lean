import Formulary.Proofs.Grammar.Phrase

/-!
# Settled derivations

The grammar is ambiguous: an operator behind `else x` or `in x` may belong to `x` or to the whole.
In a `Settled` phrase it belongs to `x`: only the last operand of a chain may be a condition or a
loop. `settle` brings every phrase into that form without changing a token, so that a reader which
knows only settled phrases still reads the whole language.
-/

namespace Formulary.Parser

/-- Does a primary expression end in an expression that an operator behind it could go on? -/
def Primary.isOpen : Primary → Bool
  | .cond .. | .loop .. | .steppedLoop .. => true
  | _ => false

mutual

/-- Only the last operand of each chain is open. -/
def Phrase.Settled : Phrase → Prop
  | .operand p => p.Settled
  | .operation left _ rest => left.isOpen = false ∧ left.Settled ∧ rest.Settled

/-- All parts are settled. -/
def Primary.Settled : Primary → Prop
  | .number _ | .name _ | .emptyCall _ => True
  | .call _ arguments => arguments.Settled
  | .group inner => inner.Settled
  | .cond condition consequent alternative =>
    condition.Settled ∧ consequent.Settled ∧ alternative.Settled
  | .loop _ start stop body => start.Settled ∧ stop.Settled ∧ body.Settled
  | .steppedLoop _ start stop step body =>
    start.Settled ∧ stop.Settled ∧ step.Settled ∧ body.Settled

/-- All arguments are settled. -/
def Arguments.Settled : Arguments → Prop
  | .last e => e.Settled
  | .more e rest => e.Settled ∧ rest.Settled

end

/-- Only the last operand of a tail is open, and all are settled. -/
def Tail.Settled : Tail → Prop
  | [] => True
  | (_, q) :: rest => (rest = [] ∨ q.isOpen = false) ∧ q.Settled ∧ Tail.Settled rest

/-- The operands of a settled phrase are settled, and only the last is open. -/
theorem Phrase.Settled.head_tail {p : Phrase} (h : p.Settled) :
    (p.tail = [] ∨ p.head.isOpen = false) ∧ p.head.Settled ∧ p.tail.Settled := by
  match p, h with
  | .operand p, h => exact ⟨.inl rfl, h, trivial⟩
  | .operation left op rest, ⟨hopen, hleft, hrest⟩ =>
    exact ⟨.inr hopen, hleft, Phrase.Settled.head_tail hrest⟩

mutual

/-- Append an operator and what follows it, inside the last operand if that is open. -/
def Phrase.extend : Phrase → Operator → Phrase → Phrase
  | .operand p, op, more => p.extend op more
  | .operation left op' rest, op, more => .operation left op' (rest.extend op more)

/-- Append an operator and what follows it to a primary expression, inside if it is open. -/
def Primary.extend : Primary → Operator → Phrase → Phrase
  | .cond condition consequent alternative, op, more =>
    .operand (.cond condition consequent (alternative.extend op more))
  | .loop name start stop body, op, more =>
    .operand (.loop name start stop (body.extend op more))
  | .steppedLoop name start stop step body, op, more =>
    .operand (.steppedLoop name start stop step (body.extend op more))
  | p, op, more => .operation p op more

end

mutual

/-- The settled derivation of the same tokens. -/
def Phrase.settle : Phrase → Phrase
  | .operand p => .operand p.settle
  | .operation left op rest => left.settle.extend op rest.settle

/-- The settled derivation of a primary expression. -/
def Primary.settle : Primary → Primary
  | .number value => .number value
  | .name name => .name name
  | .emptyCall name => .emptyCall name
  | .call name arguments => .call name arguments.settle
  | .group inner => .group inner.settle
  | .cond condition consequent alternative =>
    .cond condition.settle consequent.settle alternative.settle
  | .loop name start stop body => .loop name start.settle stop.settle body.settle
  | .steppedLoop name start stop step body =>
    .steppedLoop name start.settle stop.settle step.settle body.settle

/-- The settled derivations of arguments. -/
def Arguments.settle : Arguments → Arguments
  | .last e => .last e.settle
  | .more e rest => .more e.settle rest.settle

end

section

variable (marks : Bool) (op : Operator) (more : Phrase)

mutual

/-- Appending adds the operator and what follows it at the end. -/
theorem Phrase.spell_extend : ∀ p : Phrase,
    (p.extend op more).spell marks = p.spell marks ++ .operator op :: more.spell marks
  | .operand p => p.spell_extend
  | .operation left op' rest => by
    rw [Phrase.extend, Phrase.spell, Phrase.spell, rest.spell_extend]
    simp

/-- Appending to a primary expression adds the operator and what follows it at the end. -/
theorem Primary.spell_extend : ∀ p : Primary,
    (p.extend op more).spell marks = p.spell marks ++ .operator op :: more.spell marks
  | .number _ | .name _ | .emptyCall _ | .call _ _ | .group _ => rfl
  | .cond condition consequent alternative => by
    simp [Primary.extend, Phrase.spell, Primary.spell, alternative.spell_extend]
  | .loop name start stop body => by
    simp [Primary.extend, Phrase.spell, Primary.spell, body.spell_extend]
  | .steppedLoop name start stop step body => by
    simp [Primary.extend, Phrase.spell, Primary.spell, body.spell_extend]

end

mutual

/-- Appending to a settled phrase keeps it settled. -/
theorem Phrase.settled_extend (hmore : more.Settled) :
    ∀ p : Phrase, p.Settled → (p.extend op more).Settled
  | .operand p, h => p.settled_extend hmore h
  | .operation _ _ rest, ⟨hopen, hleft, hrest⟩ => ⟨hopen, hleft, rest.settled_extend hmore hrest⟩

/-- Appending to a settled primary expression gives a settled phrase. -/
theorem Primary.settled_extend (hmore : more.Settled) :
    ∀ p : Primary, p.Settled → (p.extend op more).Settled
  | .number _, h | .name _, h | .emptyCall _, h | .call _ _, h | .group _, h => ⟨rfl, h, hmore⟩
  | .cond _ _ alternative, ⟨hcond, hthen, helse⟩ =>
    ⟨hcond, hthen, alternative.settled_extend hmore helse⟩
  | .loop _ _ _ body, ⟨hstart, hstop, hbody⟩ => ⟨hstart, hstop, body.settled_extend hmore hbody⟩
  | .steppedLoop _ _ _ _ body, ⟨hstart, hstop, hstep, hbody⟩ =>
    ⟨hstart, hstop, hstep, body.settled_extend hmore hbody⟩

end

mutual

/-- Settling changes no token. -/
theorem Phrase.spell_settle : ∀ p : Phrase, p.settle.spell marks = p.spell marks
  | .operand p => p.spell_settle
  | .operation left op rest => by
    rw [Phrase.settle, Primary.spell_extend, left.spell_settle, rest.spell_settle, Phrase.spell]

/-- Settling a primary expression changes no token. -/
theorem Primary.spell_settle : ∀ p : Primary, p.settle.spell marks = p.spell marks
  | .number _ | .name _ | .emptyCall _ => rfl
  | .call name arguments => by rw [Primary.settle, Primary.spell, arguments.spell_settle]; rfl
  | .group inner => by rw [Primary.settle, Primary.spell, inner.spell_settle]; rfl
  | .cond condition consequent alternative => by
    simp only [Primary.settle, Primary.spell, condition.spell_settle, consequent.spell_settle,
      alternative.spell_settle]
  | .loop name start stop body => by
    simp only [Primary.settle, Primary.spell, start.spell_settle, stop.spell_settle,
      body.spell_settle]
  | .steppedLoop name start stop step body => by
    simp only [Primary.settle, Primary.spell, start.spell_settle, stop.spell_settle,
      step.spell_settle, body.spell_settle]

/-- Settling arguments changes no token. -/
theorem Arguments.spell_settle : ∀ a : Arguments, a.settle.spell marks = a.spell marks
  | .last e => e.spell_settle
  | .more e rest => by
    rw [Arguments.settle, Arguments.spell, e.spell_settle, rest.spell_settle, Arguments.spell]

end

end

mutual

/-- What was settled is settled. -/
theorem Phrase.settled_settle : ∀ p : Phrase, p.settle.Settled
  | .operand p => p.settled_settle
  | .operation left _ rest =>
    left.settle.settled_extend _ _ rest.settled_settle left.settled_settle

/-- A primary expression that was settled is settled. -/
theorem Primary.settled_settle : ∀ p : Primary, p.settle.Settled
  | .number _ | .name _ | .emptyCall _ => trivial
  | .call _ arguments => arguments.settled_settle
  | .group inner => inner.settled_settle
  | .cond condition consequent alternative =>
    ⟨condition.settled_settle, consequent.settled_settle, alternative.settled_settle⟩
  | .loop _ start stop body => ⟨start.settled_settle, stop.settled_settle, body.settled_settle⟩
  | .steppedLoop _ start stop step body =>
    ⟨start.settled_settle, stop.settled_settle, step.settled_settle, body.settled_settle⟩

/-- Arguments that were settled are settled. -/
theorem Arguments.settled_settle : ∀ a : Arguments, a.settle.Settled
  | .last e => e.settled_settle
  | .more e rest => ⟨e.settled_settle, rest.settled_settle⟩

end

end Formulary.Parser
