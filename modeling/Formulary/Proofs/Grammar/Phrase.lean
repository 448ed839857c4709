import Formulary.Proofs.Grammar.Flat

/-!
# Derivations of the grammar

A `Phrase` is a derivation of `expression ::= primary (operator primary)*`, a `Clause` one of a
statement. `spell true` gives the contents of all its tokens. `spell false` leaves out grouping
parentheses and the commas between parameters, which is what a flattened tree shows of it.

The tree of a phrase is that of its chain of operators; `Phrase.flat_expr` says that flattening
takes it back to the tokens.
-/

namespace Formulary.Parser

mutual

/-- An expression: primary expressions with operators between them. -/
inductive Phrase where
  | operand (p : Primary)
  | operation (left : Primary) (op : Operator) (rest : Phrase)

/-- A primary expression. -/
inductive Primary where
  | number (value : Float)
  | name (name : String)
  | emptyCall (name : String)
  | call (name : String) (arguments : Arguments)
  | group (inner : Phrase)
  | cond (condition consequent alternative : Phrase)
  | loop (name : String) (start stop body : Phrase)
  | steppedLoop (name : String) (start stop step body : Phrase)

/-- One or more arguments with commas between them. -/
inductive Arguments where
  | last (e : Phrase)
  | more (e : Phrase) (rest : Arguments)

end

/-- Words in grouping parentheses, or without them if marks are left out. -/
def enclose (marks : Bool) (words : List TokenContent) : List TokenContent :=
  if marks then mark .leftParen :: (words ++ [mark .rightParen]) else words

mutual

/-- The tokens of an expression. -/
def Phrase.spell (marks : Bool) : Phrase → List TokenContent
  | .operand p => p.spell marks
  | .operation left op rest => left.spell marks ++ .operator op :: rest.spell marks

/-- The tokens of a primary expression. -/
def Primary.spell (marks : Bool) : Primary → List TokenContent
  | .number value => [.number value]
  | .name name => [.identifier name]
  | .emptyCall name => [.identifier name, mark .leftParen, mark .rightParen]
  | .call name arguments =>
    .identifier name :: mark .leftParen :: (arguments.spell marks ++ [mark .rightParen])
  | .group inner => enclose marks (inner.spell marks)
  | .cond condition consequent alternative =>
    word .ifWord :: (condition.spell marks ++ word .thenWord :: (consequent.spell marks ++
      word .elseWord :: alternative.spell marks))
  | .loop name start stop body =>
    word .forWord :: .identifier name :: .operator .equals :: (start.spell marks ++
      mark .comma :: (stop.spell marks ++ word .inWord :: body.spell marks))
  | .steppedLoop name start stop step body =>
    word .forWord :: .identifier name :: .operator .equals :: (start.spell marks ++
      mark .comma :: (stop.spell marks ++ mark .comma :: (step.spell marks ++
        word .inWord :: body.spell marks)))

/-- The tokens of arguments. -/
def Arguments.spell (marks : Bool) : Arguments → List TokenContent
  | .last e => e.spell marks
  | .more e rest => e.spell marks ++ mark .comma :: rest.spell marks

end

/-- Operators, each with the primary expression behind it. -/
abbrev Tail := List (Operator × Primary)

/-- The tokens of operators and the primary expressions behind them. -/
def Tail.spell (marks : Bool) (t : Tail) : List TokenContent :=
  t.flatMap fun link => .operator link.1 :: link.2.spell marks

/-- The tokens of a tail with one more link in front. -/
theorem Tail.spell_cons (marks : Bool) (op : Operator) (p : Primary) (t : Tail) :
    Tail.spell marks ((op, p) :: t) = .operator op :: (p.spell marks ++ Tail.spell marks t) := rfl

/-- The tokens of two tails. -/
theorem Tail.spell_append (marks : Bool) (t u : Tail) :
    Tail.spell marks (t ++ u) = Tail.spell marks t ++ Tail.spell marks u :=
  List.flatMap_append

/-- The phrase of a first operand and the operators behind it. -/
def Phrase.ofTail : Primary → Tail → Phrase
  | p, [] => .operand p
  | p, (op, q) :: rest => .operation p op (ofTail q rest)

/-- The tokens of a phrase are those of its first operand and those behind it. -/
theorem Phrase.spell_ofTail (marks : Bool) (p : Primary) (t : Tail) :
    (ofTail p t).spell marks = p.spell marks ++ t.spell marks := by
  induction t generalizing p with
  | nil => simp [ofTail, spell, Tail.spell]
  | cons link rest ih =>
    rw [ofTail, spell, ih]
    rfl

/-- The first operand. -/
def Phrase.head : Phrase → Primary
  | .operand p => p
  | .operation left _ _ => left

/-- The operators and the operands behind the first one. -/
def Phrase.tail : Phrase → Tail
  | .operand _ => []
  | .operation _ op rest => (op, rest.head) :: rest.tail

/-- A phrase is spelled as its first operand and what is behind it. -/
theorem Phrase.spell_head_tail (marks : Bool) (p : Phrase) :
    p.spell marks = p.head.spell marks ++ p.tail.spell marks := by
  match p with
  | .operand p => simp [head, tail, spell, Tail.spell]
  | .operation left op rest =>
    rw [spell, rest.spell_head_tail, head, tail, Tail.spell_cons]

/-! ### Grouping -/

mutual

/-- The greatest number of grouping parentheses that are open at once in a phrase. -/
def Phrase.groups : Phrase → Nat
  | .operand p => p.groups
  | .operation left _ rest => max left.groups rest.groups

/-- The greatest number of grouping parentheses that are open at once in a primary expression. -/
def Primary.groups : Primary → Nat
  | .number _ | .name _ | .emptyCall _ => 0
  | .call _ arguments => arguments.groups
  | .group inner => inner.groups + 1
  | .cond condition consequent alternative =>
    max condition.groups (max consequent.groups alternative.groups)
  | .loop _ start stop body => max start.groups (max stop.groups body.groups)
  | .steppedLoop _ start stop step body =>
    max start.groups (max stop.groups (max step.groups body.groups))

/-- The greatest number of grouping parentheses that are open at once in arguments. -/
def Arguments.groups : Arguments → Nat
  | .last e => e.groups
  | .more e rest => max e.groups rest.groups

end

/-- A phrase opens no more groups than the greatest number in its operands. -/
theorem Phrase.groups_ofTail_le {p : Primary} {t : Tail} {n : Nat} (hp : p.groups ≤ n)
    (ht : ∀ link ∈ t, link.2.groups ≤ n) : (ofTail p t).groups ≤ n := by
  induction t generalizing p with
  | nil => exact hp
  | cons link rest ih =>
    have hrest := ih (ht link List.mem_cons_self) fun l hl => ht l (List.mem_cons_of_mem _ hl)
    exact Nat.max_le.mpr ⟨hp, hrest⟩

/-- No operand opens more groups than the phrase. -/
theorem Phrase.groups_head_tail (p : Phrase) :
    p.head.groups ≤ p.groups ∧ ∀ link ∈ p.tail, link.2.groups ≤ p.groups := by
  match p with
  | .operand p => exact ⟨Nat.le_refl _, by simp [tail]⟩
  | .operation left op rest =>
    obtain ⟨hhead, htail⟩ := rest.groups_head_tail
    rw [groups, head, tail]
    refine ⟨Nat.le_max_left _ _, fun link hlink => ?_⟩
    rcases List.mem_cons.mp hlink with rfl | hlink
    · exact Nat.le_trans hhead (Nat.le_max_right _ _)
    · exact Nat.le_trans (htail link hlink) (Nat.le_max_right _ _)

/-! ### Trees -/

mutual

/-- The tree of the first operand. -/
def Phrase.first : Phrase → Expr
  | .operand p => p.expr
  | .operation left _ _ => left.expr

/-- The operators with the trees of their right operands. -/
def Phrase.links : Phrase → Chain
  | .operand _ => []
  | .operation _ op rest => (op, rest.first) :: rest.links

/-- The tree of a primary expression. -/
def Primary.expr : Primary → Expr
  | .number value => .number value none
  | .name name => .var name none
  | .emptyCall name => .call name [] none
  | .call name arguments => .call name arguments.exprs none
  | .group inner => ofChain inner.first inner.links
  | .cond condition consequent alternative =>
    .cond (ofChain condition.first condition.links) (ofChain consequent.first consequent.links)
      (ofChain alternative.first alternative.links) none
  | .loop name start stop body =>
    .loop name (ofChain start.first start.links) (ofChain stop.first stop.links) none
      (ofChain body.first body.links) none
  | .steppedLoop name start stop step body =>
    .loop name (ofChain start.first start.links) (ofChain stop.first stop.links)
      (some (ofChain step.first step.links)) (ofChain body.first body.links) none

/-- The trees of arguments. -/
def Arguments.exprs : Arguments → List Expr
  | .last e => [ofChain e.first e.links]
  | .more e rest => ofChain e.first e.links :: rest.exprs

end

/-- The tree of an expression. -/
def Phrase.expr (p : Phrase) : Expr := ofChain p.first p.links

@[simp] theorem Primary.expr_group (inner : Phrase) : (group inner).expr = inner.expr := rfl

@[simp] theorem Primary.expr_cond (condition consequent alternative : Phrase) :
    (cond condition consequent alternative).expr =
      .cond condition.expr consequent.expr alternative.expr none := rfl

@[simp] theorem Primary.expr_loop (name : String) (start stop body : Phrase) :
    (loop name start stop body).expr = .loop name start.expr stop.expr none body.expr none := rfl

@[simp] theorem Primary.expr_steppedLoop (name : String) (start stop step body : Phrase) :
    (steppedLoop name start stop step body).expr =
      .loop name start.expr stop.expr (some step.expr) body.expr none := rfl

@[simp] theorem Arguments.exprs_last (e : Phrase) : (last e).exprs = [e.expr] := rfl

@[simp] theorem Arguments.exprs_more (e : Phrase) (rest : Arguments) :
    (more e rest).exprs = e.expr :: rest.exprs := rfl

/-- The operators of a tail with the trees of their right operands. -/
def Tail.links (t : Tail) : Chain := t.map fun link => (link.1, link.2.expr)

/-- The tree of an expression is that of the chain of its operands. -/
theorem Phrase.expr_eq (p : Phrase) : p.expr = ofChain p.head.expr p.tail.links := by
  have hfirst (p : Phrase) : p.first = p.head.expr := by cases p <;> rfl
  have hlinks (p : Phrase) : p.links = p.tail.links := by
    induction p using Phrase.rec (motive_2 := fun _ => True) (motive_3 := fun _ => True) with
    | operation left op rest _ ih => rw [links, tail, Tail.links, List.map_cons, ih, hfirst]; rfl
    | operand => rfl
    | _ => trivial
  rw [expr, hfirst, hlinks]

mutual

/-- Flattening gives back the tokens of a chain. -/
theorem Phrase.flat_first_links : ∀ p : Phrase,
    (p.first.flat ++ p.links.flatMap fun link => .operator link.1 :: link.2.flat) = p.spell false
  | .operand p => by simp [Phrase.first, Phrase.links, Phrase.spell, p.flat_expr]
  | .operation left op rest => by
    have hrest := rest.flat_first_links
    simp [Phrase.first, Phrase.links, Phrase.spell, left.flat_expr, ← hrest]

/-- Flattening gives back the tokens of a primary expression but for grouping parentheses. -/
theorem Primary.flat_expr : ∀ p : Primary, p.expr.flat = p.spell false
  | .number value => rfl
  | .name name => rfl
  | .emptyCall name => rfl
  | .call name arguments => by
    rw [Primary.expr, Expr.flat, Primary.spell, arguments.flats_exprs]
  | .group inner => by
    rw [Primary.expr, flat_ofChain, inner.flat_first_links]
    rfl
  | .cond condition consequent alternative => by
    simp only [Primary.expr, Expr.flat, Primary.spell, flat_ofChain,
      Phrase.flat_first_links]
  | .loop name start stop body => by
    simp only [Primary.expr, Expr.flat, Primary.spell, flat_ofChain,
      Phrase.flat_first_links]
  | .steppedLoop name start stop step body => by
    simp only [Primary.expr, Expr.flat, Primary.spell, flat_ofChain,
      Phrase.flat_first_links]

/-- Flattening gives back the tokens of arguments but for grouping parentheses. -/
theorem Arguments.flats_exprs : ∀ a : Arguments, Expr.flats a.exprs = a.spell false
  | .last e => by
    rw [Arguments.exprs, Expr.flats, flat_ofChain, e.flat_first_links, Arguments.spell]
  | .more e (.last e') => by
    simp only [Arguments.exprs, Expr.flats, Arguments.spell, flat_ofChain,
      Phrase.flat_first_links]
  | .more e (.more e' rest) => by
    have hrest := Arguments.flats_exprs (.more e' rest)
    rw [Arguments.exprs] at hrest
    rw [Arguments.exprs, Arguments.exprs, Expr.flats, hrest, flat_ofChain, e.flat_first_links]
    simp only [Arguments.spell]

end

/-- Flattening gives back the tokens of an expression but for grouping parentheses. -/
theorem Phrase.flat_expr (p : Phrase) : p.expr.flat = p.spell false := by
  rw [Phrase.expr, flat_ofChain, p.flat_first_links]

end Formulary.Parser
