import Formulary.Parser.Basic
import Formulary.Proofs.Descent.Statements

/-!
# Whole token lists

A token list that is read to its end is a sequence of clauses, and what was read is the sequence of
the statements that they yield. A token list that is not read to its end is a sequence of clauses up
to some place, and the reader is stuck in the clause that begins there.
-/

namespace Formulary

/-- The declaration of an outside function in a statement, if it is one. -/
def Statement.foreign? : Statement → Option Prototype
  | .foreign p => some p
  | _ => none

/-- The definition in a statement, if it is one. -/
def Statement.definition? : Statement → Option Definition
  | .definition d => some d
  | _ => none

/-- The top-level expression in a statement, if it is one. -/
def Statement.expression? : Statement → Option Expr
  | .expression e => some e
  | _ => none

namespace Program

/-- Adding statements adds their declarations of outside functions. -/
theorem externs_foldl_extend (ss : List Statement) (p : Program) :
    (ss.foldl extend p).externs = p.externs ++ ss.filterMap Statement.foreign? := by
  induction ss generalizing p with
  | nil => simp
  | cons s rest ih =>
    rw [List.foldl_cons, ih]
    cases s <;> simp [extend, Statement.foreign?, List.filterMap_cons]

/-- Adding statements adds their definitions. -/
theorem definitions_foldl_extend (ss : List Statement) (p : Program) :
    (ss.foldl extend p).definitions = p.definitions ++ ss.filterMap Statement.definition? := by
  induction ss generalizing p with
  | nil => simp
  | cons s rest ih =>
    rw [List.foldl_cons, ih]
    cases s <;> simp [extend, Statement.definition?, List.filterMap_cons]

/-- Adding statements adds their top-level expressions. -/
theorem expressions_foldl_extend (ss : List Statement) (p : Program) :
    (ss.foldl extend p).expressions = p.expressions ++ ss.filterMap Statement.expression? := by
  induction ss generalizing p with
  | nil => simp
  | cons s rest ih =>
    rw [List.foldl_cons, ih]
    cases s <;> simp [extend, Statement.expression?, List.filterMap_cons]

/-- The outside functions of a program are those of its statements. -/
theorem externs_ofStatements (ss : List Statement) :
    (ofStatements ss).externs = ss.filterMap Statement.foreign? := externs_foldl_extend ss {}

/-- The definitions of a program are those of its statements. -/
theorem definitions_ofStatements (ss : List Statement) :
    (ofStatements ss).definitions = ss.filterMap Statement.definition? :=
  definitions_foldl_extend ss {}

/-- The expressions of a program are those of its statements. -/
theorem expressions_ofStatements (ss : List Statement) :
    (ofStatements ss).expressions = ss.filterMap Statement.expression? :=
  expressions_foldl_extend ss {}

end Program

namespace Parser

open Descent

/-- A list of statements says what a list of clauses says; empty clauses say nothing. -/
def YieldsAll : List Clause → List Statement → Prop
  | [], ss => ss = []
  | k :: ks, ss => ∃ o rest, k.Yields o ∧ ss = o.toList ++ rest ∧ YieldsAll ks rest

/-- The tokens of a sequence of clauses with distinct parameters. -/
def IsProgram (words : List TokenContent) : Prop :=
  ∃ ks, spellAll true ks = words ∧ ∀ k ∈ ks, k.Distinct

/-- Clauses were read as statements, within the nesting limit. -/
structure ReadsClauses (limit : Int) (c : Cursor) (ks : List Clause) (ss : List Statement)
    (after : Cursor) : Prop where
  spells : c.Spells (spellAll true ks) after
  distinct : ∀ k ∈ ks, k.Distinct
  yields : YieldsAll ks ss
  heights : ∀ s ∈ ss, s.height ≤ limit.toNat
  groups : ∀ k ∈ ks, k.groups ≤ limit.toNat

/-- No clause is read in no step. -/
theorem ReadsClauses.nil (limit : Int) (c : Cursor) : ReadsClauses limit c [] [] c :=
  ⟨.refl c, by simp, rfl, by simp, by simp⟩

/-- One clause is read, and then others. -/
theorem ReadsClauses.cons {limit : Int} {c b after : Cursor} {o : Option Statement}
    {ks : List Clause} {ss : List Statement} (h : ReadsClause limit c o b)
    (hrest : ReadsClauses limit b ks ss after) :
    ∃ k, ReadsClauses limit c (k :: ks) (o.toList ++ ss) after := by
  obtain ⟨k, hspells, hdistinct, hyields, hheight, hgroups⟩ := h
  refine ⟨k, hspells.trans hrest.spells, ?_, ⟨o, ss, hyields, rfl, hrest.yields⟩, ?_, ?_⟩
  · exact List.forall_mem_cons.mpr ⟨hdistinct, hrest.distinct⟩
  · intro s hs
    rcases List.mem_append.mp hs with hs | hs
    · exact hheight s (by simpa using hs)
    · exact hrest.heights s hs
  · exact List.forall_mem_cons.mpr ⟨hgroups, hrest.groups⟩

/-- A statement that is read is a clause, and where none is read the reader is stuck in one. -/
theorem statement_reads (limit : Int) (c : Cursor) :
    match statement limit c with
    | (.ok o, after) => ReadsClause limit c o after
    | (.error e, after) => Stuck IsClause c e after := by
  have h := statementWithin_reads (4 * c.rest.length + 3) limit c
  unfold statement
  split
  · next o after hok =>
    rw [(finish_eq_ok _).mp hok] at h
    exact h
  · next e after herror =>
    rw [(finish_eq_error _).mp herror] at h
    exact h

/-- A statement takes a token at least. -/
theorem statement_shortens {limit : Int} {c after : Cursor} {o : Option Statement}
    (h : statement limit c = (.ok o, after)) : after.rest.length < c.rest.length := by
  have hleaves := @answers_statementWithin _ c.rest.length (Nat.le_refl _) limit c
    (Nat.le_refl _)
  rw [(finish_eq_ok _).mp h] at hleaves
  exact hleaves

/-- Statements are read clause by clause, to the end or to where the reader is stuck. -/
theorem statementsFrom_reads (limit : Int) (steps : Nat) (before : List Statement) (c : Cursor)
    (hsteps : c.rest.length < steps) : ∃ ks ss mid, ReadsClauses limit c ks ss mid ∧
      (statementsFrom limit steps before c).statements = before.reverse ++ ss ∧
      match (statementsFrom limit steps before c).mistake with
      | none => (statementsFrom limit steps before c).cursor = mid ∧ mid.rest = []
      | some e => Stuck IsClause mid e (statementsFrom limit steps before c).cursor := by
  induction steps generalizing before c with
  | zero => omega
  | succ steps ih =>
    unfold statementsFrom
    have hstatement := statement_reads limit c
    split
    · next hend => exact ⟨[], [], c, .nil limit c, by simp, rfl, by simpa using hend⟩
    · split
      · next e after herror =>
        rw [herror] at hstatement
        exact ⟨[], [], c, .nil limit c, by simp, hstatement⟩
      · next o after hok =>
        rw [hok] at hstatement
        have hshort := statement_shortens hok
        obtain ⟨ks, ss, mid, hreads, hstatements, hend⟩ :=
          ih (o.toList ++ before) after (by omega)
        obtain ⟨k, hreads⟩ := hreads.cons hstatement
        refine ⟨k :: ks, o.toList ++ ss, mid, hreads, ?_, hend⟩
        rw [hstatements]
        cases o <;> simp

/-- What a program is read from: clauses that spell the tokens. -/
theorem parse_reads {tokens : List Token} {limit : Int} {p : Program}
    (h : parse tokens limit = .ok p) : ∃ ks ss after, ReadsClauses limit (.start tokens) ks ss after ∧
      after.rest = [] ∧ p = (Program.ofStatements ss).close := by
  obtain ⟨ks, ss, mid, hreads, hstatements, hend⟩ :=
    statementsFrom_reads limit (tokens.length + 1) [] (.start tokens) (Nat.lt_succ_self _)
  unfold parse read Reading.program at h
  split at h
  · contradiction
  · next hmistake =>
    rw [hmistake] at hend
    rw [hstatements] at h
    exact ⟨ks, ss, mid, hreads, hend.2, (Except.ok.inj h).symm⟩

/-- Where no program is read, the reader is stuck in a program. -/
theorem parse_stuck {tokens : List Token} {limit : Int} {e : SyntaxError}
    (h : parse tokens limit = .error e) :
    Stuck IsProgram (.start tokens) e (read tokens limit).cursor := by
  obtain ⟨ks, ss, mid, hreads, _, hend⟩ :=
    statementsFrom_reads limit (tokens.length + 1) [] (.start tokens) (Nat.lt_succ_self _)
  unfold parse Reading.program at h
  split at h
  · next e' hmistake =>
    unfold read at hmistake
    rw [hmistake] at hend
    obtain rfl := Except.error.inj h
    apply hend.inside hreads.spells []
    rintro _ ⟨k, rfl, hk⟩
    refine ⟨ks ++ [k], by simp [spellAll], fun k' hk' => ?_⟩
    rcases List.mem_append.mp hk' with hk' | hk'
    · exact hreads.distinct k' hk'
    · rwa [List.mem_singleton.mp hk']
  · contradiction

end Parser

end Formulary
