import Formulary.Proofs.Descent.Soundness

/-!
# Prototypes and statements

What the descents into prototypes and statements read is derived by the grammar, with the parameters
of each prototype distinct. A parameter that is there already is blamed when it has been taken; the
place where the reader is stuck is the one before it.
-/

namespace Formulary.Parser

open Descent

/-- The tokens of parameters. -/
def spellParams (params : List (String × Bool)) : List TokenContent :=
  params.flatMap (Signature.spellParam true)

/-- The tokens of parameters that are distinct from each other and from those already seen. -/
def IsParams (seen : List String) (words : List TokenContent) : Prop :=
  ∃ params, spellParams params = words ∧ (seen ++ params.map Prod.fst).Nodup

/-- The tokens of some prototype with distinct parameters. -/
def IsSignature (words : List TokenContent) : Prop :=
  ∃ s : Signature, s.spell true = words ∧ s.names.Nodup

/-- The tokens of some statement with distinct parameters. -/
def IsClause (words : List TokenContent) : Prop :=
  ∃ k : Clause, k.spell true = words ∧ k.Distinct

/-- Parameters were read behind those already seen. -/
def ReadsParams (seen : List String) (c : Cursor) (names : List String) (after : Cursor) : Prop :=
  ∃ params, c.Spells (spellParams params) after ∧ names = seen ++ params.map Prod.fst ∧ names.Nodup

/-- A prototype was read. -/
def ReadsPrototype (c : Cursor) (p : Prototype) (after : Cursor) : Prop :=
  ∃ s : Signature, c.Spells (s.spell true) after ∧ s.Yields p ∧ s.names.Nodup

/-- A statement was read, or an empty one, within the nesting limit. -/
def ReadsClause (limit : Int) (c : Cursor) (o : Option Statement) (after : Cursor) : Prop :=
  ∃ k : Clause, c.Spells (k.spell true) after ∧ k.Distinct ∧ k.Yields o ∧
    (∀ s ∈ o, s.height ≤ limit.toNat) ∧ k.groups ≤ limit.toNat

/-- A prototype spelled from its parts. -/
theorem Signature.spell_true (name : String) (params : List (String × Bool)) :
    (Signature.mk name params).spell true =
      [.identifier name, mark .leftParen] ++ spellParams params ++ [mark .rightParen] := rfl

/-- Parameters are read as the grammar says, and a repeated one is refused. -/
theorem parametersWithin_reads (fuel : Nat) (function : String) (seen : List String) (c : Cursor)
    (hseen : seen.Nodup) : (parametersWithin fuel function seen c).Ends (ReadsParams seen c)
      (Stuck (IsParams seen) c) := by
  induction fuel generalizing seen c with
  | zero => trivial
  | succ fuel ih =>
    unfold parametersWithin
    refine ends_takeIf (fun t rest parameter hrest hname => ?_) ?_
    · split
      · -- the parameter has been taken, but the texts that go on end before it
        refine .inr ⟨c, [], [], rfl, ?_, .refl c, [], rfl, by simpa using hseen⟩
        rw [Cursor.current, hrest]
      · next hnew =>
        have hmore : (seen ++ [parameter]).Nodup := by
          rw [List.nodup_append]
          exact ⟨hseen, by simp, fun a ha b hb hab => hnew (by simp_all)⟩
        have h := Cursor.Spells.ofName hrest hname
        have hrec (comma : Bool) {words : List TokenContent} {b : Cursor}
            (hwords : words = Signature.spellParam true (parameter, comma)) (h : c.Spells words b) :
            (parametersWithin fuel function (seen ++ [parameter]) b).Ends (ReadsParams seen c)
              (Stuck (IsParams seen) c) := by
          subst hwords
          refine (ih _ b hmore).mono (fun names after hread => ?_) fun err after hstuck =>
            hstuck.inside h [] ?_
          · obtain ⟨params, hspells, rfl, hnodup⟩ := hread
            exact ⟨(parameter, comma) :: params, h.trans hspells, by simp, hnodup⟩
          · rintro _ ⟨params, rfl, hnodup⟩
            exact ⟨(parameter, comma) :: params, by simp [spellParams], by simpa using hnodup⟩
        refine ends_takeIf (fun u rest' _ hrest' hcomma => ?_) fun _ => hrec false rfl h
        exact hrec true rfl (h.trans (.ofMark hrest' (kind_of_ofKind hcomma)))
    · exact fun _ => ⟨[], .refl c, by simp, hseen⟩

/-- A prototype is read as the grammar says. -/
theorem prototypeWithin_reads (fuel : Nat) (c : Cursor) :
    (prototypeWithin fuel c).Ends (ReadsPrototype c) (Stuck IsSignature c) := by
  simp only [prototypeWithin, ends_bind]
  refine ends_name (.refl c) [mark .leftParen, mark .rightParen]
    ⟨⟨"x", []⟩, rfl, by simp [Signature.names]⟩ fun _ function _ h => ?_
  refine ends_mark h [mark .rightParen] ⟨⟨function, []⟩, rfl, by simp [Signature.names]⟩
    fun _ _ h => ?_
  refine (parametersWithin_reads fuel function [] _ List.nodup_nil).mono (fun names _ hread => ?_)
    fun _ _ hstuck => hstuck.inside h [mark .rightParen] ?_
  · obtain ⟨params, hspells, rfl, hnodup⟩ := hread
    have h := h.trans hspells
    refine ends_mark h [] ⟨⟨function, params⟩, by simp [Signature.spell_true], hnodup⟩
      fun _ _ h => ?_
    simp only [ends_spanFrom, ends_pure]
    exact ⟨⟨function, params⟩, by simpa [Signature.spell_true] using h, ⟨rfl, rfl⟩, hnodup⟩
  · rintro _ ⟨params, rfl, hnodup⟩
    exact ⟨⟨function, params⟩, by simp [Signature.spell_true], hnodup⟩

/-- Reading a prototype as a part of a statement. -/
theorem ends_prototype {fuel : Nat} {good : Prototype → Cursor → Prop} {c b : Cursor}
    {words : List TokenContent} (h : c.Spells words b) (more : List TokenContent)
    (hclause : ∀ s : Signature, s.names.Nodup → IsClause (words ++ (s.spell true ++ more)))
    (hgood : ∀ (s : Signature) p after, c.Spells (words ++ s.spell true) after → s.Yields p →
      s.names.Nodup → good p after) :
    (prototypeWithin fuel b).Ends good (Stuck IsClause c) := by
  refine (prototypeWithin_reads fuel b).mono (fun p after hread => ?_) fun _ _ hstuck =>
    hstuck.inside h more ?_
  · obtain ⟨s, hspells, hyields, hnodup⟩ := hread
    exact hgood s p after (h.trans hspells) hyields hnodup
  · rintro _ ⟨s, rfl, hnodup⟩
    exact hclause s hnodup

/-- An expression is read from the outside as the grammar says. -/
theorem expressionWithin_reads (fuel : Nat) (limit : Int) (c : Cursor) :
    (expressionWithin fuel { limit } c).Ends (ReadsPhrase { limit } c) (Stuck IsPhrase c) :=
  (reads_within fuel).expression _ c (Int.le_max_right _ _)

/-- The declaration of an outside function is read as the grammar says. -/
theorem foreignWithin_reads (fuel : Nat) (limit : Int) (c : Cursor) :
    (foreignWithin fuel c).Ends (fun p => ReadsClause limit c (some (.foreign p)))
      (Stuck IsClause c) := by
  simp only [foreignWithin, ends_bind]
  refine ends_word (.refl c) [.identifier "x", mark .leftParen, mark .rightParen, mark .semicolon]
    ⟨.foreign ⟨"x", []⟩, rfl, by simp [Clause.Distinct, Signature.names]⟩ fun _ _ h => ?_
  refine ends_prototype h [mark .semicolon]
    (fun s hs => ⟨.foreign s, by simp [Clause.spell], hs⟩) fun s p _ h hyields hs => ?_
  apply ends_mark h [] ⟨.foreign s, by simp [Clause.spell], hs⟩
  intro _ _ h
  exact ⟨.foreign s, by simpa [Clause.spell] using h, hs, hyields,
    by simp [Statement.height], by simp [Clause.groups]⟩

/-- A definition is read as the grammar says. -/
theorem definitionWithin_reads (fuel : Nat) (limit : Int) (c : Cursor) :
    (definitionWithin fuel limit c).Ends (fun d => ReadsClause limit c (some (.definition d)))
      (Stuck IsClause c) := by
  simp only [definitionWithin, ends_bind]
  refine ends_word (.refl c)
    [.identifier "x", mark .leftParen, mark .rightParen, .number 0, mark .semicolon]
    ⟨.definition ⟨"x", []⟩ filler, rfl, by simp [Clause.Distinct, Signature.names]⟩ fun _ _ h => ?_
  refine ends_prototype h [.number 0, mark .semicolon]
    (fun s hs => ⟨.definition s filler, by
      simp [Clause.spell, filler, Phrase.spell, Primary.spell], hs⟩)
    fun s p _ h hyields hs => ?_
  refine ends_part (expressionWithin_reads fuel limit _) h [mark .semicolon]
    (fun e => ⟨.definition s e, by simp [Clause.spell], hs⟩) fun e m _ h hflat hheight hgroups => ?_
  dsimp only at hheight hgroups
  apply ends_mark h [] ⟨.definition s e, by simp [Clause.spell], hs⟩
  intro _ _ h
  refine ⟨.definition s e, by simpa [Clause.spell] using h, hs, ⟨hyields, hflat⟩, ?_, ?_⟩
  · simp only [Option.mem_def, Option.some.injEq, forall_eq', Statement.height, m.height_eq]
    omega
  · simp only [Clause.groups]
    omega

/-- A top-level expression is read as the grammar says. -/
theorem formulaWithin_reads (fuel : Nat) (limit : Int) (c : Cursor) :
    ((do
      let e ← expressionWithin fuel { limit }
      let _ ← expect (.punctuation .semicolon) "after top-level expression"
      return some (.expression e.expr) : Descent (Option Statement)) c).Ends (ReadsClause limit c)
      (Stuck IsClause c) := by
  simp only [ends_bind]
  refine ends_part (expressionWithin_reads fuel limit c) (.refl c) [mark .semicolon]
    (fun e => ⟨.formula e, by simp [Clause.spell], trivial⟩) fun e m _ h hflat hheight hgroups => ?_
  dsimp only at hheight hgroups
  apply ends_mark h [] ⟨.formula e, by simp [Clause.spell], trivial⟩
  intro _ _ h
  refine ⟨.formula e, by simpa [Clause.spell] using h, trivial, hflat, ?_, ?_⟩
  · simp only [Option.mem_def, Option.some.injEq, forall_eq', Statement.height, m.height_eq]
    omega
  · simp only [Clause.groups]
    omega

/-- A statement is read as the grammar says. -/
theorem statementWithin_reads (fuel : Nat) (limit : Int) (c : Cursor) :
    (statementWithin fuel limit c).Ends (ReadsClause limit c) (Stuck IsClause c) := by
  simp only [statementWithin, ends_bind, ends_peek]
  cases c.current.kind with
  | keyword w =>
    cases w with
    | externWord => exact (ends_bind _ _).mpr (foreignWithin_reads fuel limit c)
    | defWord => exact (ends_bind _ _).mpr (definitionWithin_reads fuel limit c)
    | _ => exact formulaWithin_reads fuel limit c
  | punctuation m =>
    cases m with
    | semicolon =>
      refine (ends_bind _ _).mpr (ends_mark (.refl c) [] ⟨.empty, rfl, trivial⟩ fun _ _ h => ?_)
      exact ⟨.empty, h, trivial, trivial, by simp, Nat.zero_le _⟩
    | _ => exact formulaWithin_reads fuel limit c
  | _ => exact formulaWithin_reads fuel limit c

end Formulary.Parser
