import Formulary.Proofs.Grammar.Settled

/-!
# Derivations of statements

    extern     ::= 'extern' prototype ';'
    definition ::= 'def' prototype expression ';'
    prototype  ::= identifier '(' (identifier ','?)* ')'
    program    ::= (extern | definition | expression ';' | ';')*

A `Clause` is a derivation of one statement, the empty one included. That no prototype repeats a
parameter is no matter of derivation and stands apart, in `Clause.Distinct`. A clause `Yields` the
statement that it is read into: names and parameters are those of the clause, and trees flatten to
its tokens.
-/

namespace Formulary

/-- The height of the expression in a statement, zero if it has none. -/
def Statement.height : Statement → Nat
  | .foreign _ => 0
  | .definition d => d.body.height
  | .expression e => e.height

/-- Spans are no part of the height. -/
@[simp] theorem Statement.height_bare (s : Statement) : s.bare.height = s.height := by
  cases s with
  | foreign p => rfl
  | definition d => exact d.body.height_bare
  | expression e => exact e.height_bare

namespace Parser

/-- A prototype: a name, and parameters of which each may have a comma behind it. -/
structure Signature where
  name : String
  params : List (String × Bool)

namespace Signature

/-- The tokens of a parameter, with its comma unless marks are left out. -/
def spellParam (marks : Bool) (param : String × Bool) : List TokenContent :=
  .identifier param.1 :: if marks && param.2 then [mark .comma] else []

/-- The tokens of a prototype. -/
def spell (marks : Bool) (s : Signature) : List TokenContent :=
  .identifier s.name :: mark .leftParen ::
    (s.params.flatMap (spellParam marks) ++ [mark .rightParen])

/-- The names of the parameters. -/
def names (s : Signature) : List String := s.params.map Prod.fst

/-- A prototype has the name and the parameters of a signature. -/
def Yields (s : Signature) (p : Prototype) : Prop := p.name = s.name ∧ p.params = s.names

end Signature

/-- A statement, or none where a semicolon stands alone. -/
inductive Clause where
  | foreign (s : Signature)
  | definition (s : Signature) (body : Phrase)
  | formula (e : Phrase)
  | empty

namespace Clause

/-- The tokens of a statement. -/
def spell (marks : Bool) : Clause → List TokenContent
  | foreign s => word .externWord :: (s.spell marks ++ [mark .semicolon])
  | definition s body =>
    word .defWord :: (s.spell marks ++ (body.spell marks ++ [mark .semicolon]))
  | formula e => e.spell marks ++ [mark .semicolon]
  | empty => [mark .semicolon]

/-- No parameter is repeated. -/
def Distinct : Clause → Prop
  | foreign s | definition s _ => s.names.Nodup
  | formula _ | empty => True

/-- The greatest number of grouping parentheses that are open at once in a clause. -/
def groups : Clause → Nat
  | foreign _ | empty => 0
  | definition _ body => body.groups
  | formula e => e.groups

/-- A statement, or none, says what a clause says. -/
def Yields : Clause → Option Statement → Prop
  | foreign s, some (.foreign p) => s.Yields p
  | definition s body, some (.definition d) => s.Yields d.prototype ∧ d.body.flat = body.spell false
  | formula e, some (.expression x) => x.flat = e.spell false
  | empty, none => True
  | _, _ => False

/-- The statement that a clause is, without spans, or none if it is empty. -/
def statement : Clause → Option Statement
  | foreign s => some (.foreign { name := s.name, params := s.names })
  | definition s body => some (.definition ⟨{ name := s.name, params := s.names }, body.expr⟩)
  | formula e => some (.expression e.expr)
  | empty => none

/-- The expression of a clause is settled, if it has one. -/
def Settled : Clause → Prop
  | definition _ body => body.Settled
  | formula e => e.Settled
  | foreign _ | empty => True

/-- The settled derivation of the same tokens. -/
def settle : Clause → Clause
  | definition s body => definition s body.settle
  | formula e => formula e.settle
  | k => k

/-- Settling changes no token. -/
theorem spell_settle (marks : Bool) (k : Clause) : k.settle.spell marks = k.spell marks := by
  cases k <;> simp [settle, spell, Phrase.spell_settle]

/-- What was settled is settled. -/
theorem settled_settle (k : Clause) : k.settle.Settled := by
  cases k with
  | definition s body => exact body.settled_settle
  | formula e => exact e.settled_settle
  | _ => trivial

/-- Settling changes no parameter. -/
theorem Distinct.settle {k : Clause} (h : k.Distinct) : k.settle.Distinct := by
  cases k <;> exact h

/-- Is it the declaration of an outside function? -/
def isForeign : Clause → Bool
  | foreign _ => true
  | _ => false

/-- Is it a definition? -/
def isDefinition : Clause → Bool
  | definition _ _ => true
  | _ => false

/-- Is it a top-level expression? -/
def isFormula : Clause → Bool
  | formula _ => true
  | _ => false

/-- Is it an empty statement? -/
def isEmpty : Clause → Bool
  | empty => true
  | _ => false

end Clause

/-- The tokens of a program. -/
def spellAll (marks : Bool) (clauses : List Clause) : List TokenContent :=
  clauses.flatMap (Clause.spell marks)

/-- Settling all clauses changes no token. -/
theorem spellAll_map_settle (marks : Bool) (ks : List Clause) :
    spellAll marks (ks.map Clause.settle) = spellAll marks ks := by
  induction ks with
  | nil => rfl
  | cons k rest ih =>
    simp only [spellAll, List.map_cons, List.flatMap_cons, k.spell_settle] at ih ⊢
    rw [ih]

/-- A clause has a token at least. -/
theorem length_le_spellAll (ks : List Clause) : ks.length ≤ (spellAll true ks).length := by
  induction ks with
  | nil => exact Nat.le_refl _
  | cons k rest ih =>
    have hk : 1 ≤ (k.spell true).length := by cases k <;> simp [Clause.spell]
    rw [spellAll, List.flatMap_cons, List.length_append, List.length_cons, Nat.add_comm]
    exact Nat.add_le_add hk ih

/-- A prototype with the tokens of a signature flattens to them, but for the commas. -/
theorem Signature.spell_false (s : Signature) :
    s.spell false = Prototype.flat { name := s.name, params := s.names } := by
  have hparams (params : List (String × Bool)) :
      params.flatMap (spellParam false) = (params.map Prod.fst).map TokenContent.identifier := by
    induction params with
    | nil => rfl
    | cons param rest ih => simp [spellParam, ih]
  rw [spell, hparams]
  rfl

end Parser

end Formulary
