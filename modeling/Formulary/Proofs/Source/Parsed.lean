import Formulary.Expr.Source
import Formulary.Proofs.Descent.Acceptance
import Formulary.Proofs.Source.Canonical
import Formulary.Proofs.Source.Words

/-!
# What was read can be printed

A program is `Printable` within a nesting limit if its names and numbers are such as the lexer reads,
no prototype repeats a parameter, and its expressions keep the limit. Every program that was read
from a text is: its trees flatten to tokens of that text.
-/

namespace Formulary

open Formulary.Parser

namespace Parser

mutual

/-- Leaving out marks leaves the other tokens in their order. -/
theorem Phrase.spell_sublist : ∀ p : Phrase, (p.spell false).Sublist (p.spell true)
  | .operand p => p.spell_sublist
  | .operation left _ rest => left.spell_sublist.append (rest.spell_sublist.cons_cons _)

/-- Leaving out marks in a primary expression leaves the other tokens in their order. -/
theorem Primary.spell_sublist : ∀ p : Primary, (p.spell false).Sublist (p.spell true)
  | .number _ | .name _ | .emptyCall _ => List.Sublist.refl _
  | .call _ arguments =>
    ((arguments.spell_sublist.append (List.Sublist.refl _)).cons_cons _).cons_cons _
  | .group inner => (inner.spell_sublist.trans (List.sublist_append_left _ _)).cons _
  | .cond condition consequent alternative =>
    (condition.spell_sublist.append ((consequent.spell_sublist.append
      (alternative.spell_sublist.cons_cons _)).cons_cons _)).cons_cons _
  | .loop _ start stop body =>
    (((start.spell_sublist.append ((stop.spell_sublist.append
      (body.spell_sublist.cons_cons _)).cons_cons _)).cons_cons _).cons_cons _).cons_cons _
  | .steppedLoop _ start stop step body =>
    (((start.spell_sublist.append ((stop.spell_sublist.append ((step.spell_sublist.append
      (body.spell_sublist.cons_cons _)).cons_cons _)).cons_cons _)).cons_cons _).cons_cons
        _).cons_cons _

/-- Leaving out marks in arguments leaves the other tokens in their order. -/
theorem Arguments.spell_sublist : ∀ a : Arguments, (a.spell false).Sublist (a.spell true)
  | .last e => e.spell_sublist
  | .more e rest => e.spell_sublist.append (rest.spell_sublist.cons_cons _)

end

/-- Leaving out marks in a prototype leaves the other tokens in their order. -/
theorem Signature.spell_sublist (s : Signature) : (s.spell false).Sublist (s.spell true) := by
  have hparams : (s.params.flatMap (spellParam false)).Sublist
      (s.params.flatMap (spellParam true)) := by
    induction s.params with
    | nil => exact List.Sublist.refl _
    | cons param rest ih => exact (List.Sublist.append (by simp [spellParam]) ih)
  exact ((hparams.append (List.Sublist.refl _)).cons_cons _).cons_cons _

/-- Leaving out marks in a clause leaves the other tokens in their order. -/
theorem Clause.spell_sublist (k : Clause) : (k.spell false).Sublist (k.spell true) := by
  cases k with
  | foreign s => exact (s.spell_sublist.append (List.Sublist.refl _)).cons_cons _
  | definition s body =>
    exact (s.spell_sublist.append (body.spell_sublist.append (List.Sublist.refl _))).cons_cons _
  | formula e => exact e.spell_sublist.append (List.Sublist.refl _)
  | empty => exact List.Sublist.refl _

/-- Every statement is yielded by a clause. -/
theorem YieldsAll.exists_mem {ks : List Clause} {ss : List Statement} (h : YieldsAll ks ss)
    {s : Statement} (hs : s ∈ ss) : ∃ k ∈ ks, k.Yields (some s) := by
  induction ks generalizing ss with
  | nil =>
    rw [show ss = [] from h] at hs
    contradiction
  | cons k ks ih =>
    obtain ⟨o, rest, hk, rfl, hrest⟩ := h
    rcases List.mem_append.mp hs with hs | hs
    · obtain rfl : o = some s := by simpa using hs
      exact ⟨k, List.mem_cons_self, hk⟩
    · obtain ⟨k', hk', hyields⟩ := ih hrest hs
      exact ⟨k', List.mem_cons_of_mem _ hk', hyields⟩

/-- The parameters of a statement are distinct if those of its clause are. -/
theorem Clause.Yields.params_nodup {k : Clause} {s : Statement} (h : k.Yields (some s))
    (hdistinct : k.Distinct) : s.params.Nodup := by
  cases s with
  | expression e => exact List.nodup_nil
  | foreign p =>
    cases k with
    | foreign sig =>
      rw [Statement.params, h.2]
      exact hdistinct
    | _ => exact h.elim
  | definition d =>
    cases k with
    | definition sig body =>
      rw [Statement.params, h.1.2]
      exact hdistinct
    | _ => exact h.elim

end Parser

namespace Program

/-- What can be printed and read again within a nesting limit. -/
structure Printable (p : Program) (limit : Int) : Prop where
  proper : ∀ s ∈ p.statements, ∀ w ∈ s.flat, w.IsProper
  distinct : ∀ s ∈ p.statements, s.params.Nodup
  bodies : ∀ d ∈ p.definitions, (d.body.height : Int) ≤ limit
  expressions : ∀ e ∈ p.expressions, (e.height : Int) ≤ limit

/-- The statements of a program that was made of statements are among them. -/
theorem mem_of_mem_statements {ss : List Statement} {s : Statement}
    (h : s ∈ (ofStatements ss).close.statements) : s ∈ ss := by
  simp only [statements, close, externs_ofStatements, definitions_ofStatements,
    expressions_ofStatements, List.mem_append, List.mem_map, List.mem_filterMap] at h
  rcases h with (⟨a, ⟨t, ht, ha⟩, rfl⟩ | ⟨a, ⟨t, ht, ha⟩, rfl⟩) | ⟨a, ⟨t, ht, ha⟩, rfl⟩
  · cases t <;> cases ha
    exact ht
  · cases t <;> cases ha
    exact ht
  · cases t <;> cases ha
    exact ht

/-- A program that was read from a text can be printed. -/
theorem printable_of_ofSource {source filename : String} {limit : Int} {p : Program}
    (h : ofSource source filename limit = .ok p) : p.Printable limit := by
  unfold ofSource at h
  split at h
  · contradiction
  next tokens htokens =>
    split at h
    · contradiction
    next parsed hparse =>
      obtain rfl := Except.ok.inj h
      obtain ⟨ks, ss, after, hreads, hend, rfl⟩ := parse_reads hparse
      have hspell := hreads.spells.all hend
      have hproper : ∀ k ∈ ks, ∀ w ∈ k.spell true, w.IsProper := by
        intro k hk w hw
        have hmem : w ∈ tokens.map Token.content := by
          rw [← hspell]
          exact List.mem_flatMap.mpr ⟨k, hk, hw⟩
        obtain ⟨t, ht, rfl⟩ := List.mem_map.mp hmem
        exact Lexer.isProper_of_tokenize htokens t ht
      have hlimit (e : Expr) (he : e.height ≤ limit.toNat) : (e.height : Int) ≤ limit := by
        have := e.height_pos
        omega
      refine ⟨fun s hs w hw => ?_, fun s hs => ?_, fun d hd => ?_, fun e he => ?_⟩
      · obtain ⟨k, hk, hyields⟩ := hreads.yields.exists_mem (mem_of_mem_statements hs)
        rw [hyields.flat] at hw
        exact hproper k hk w (k.spell_sublist.subset hw)
      · obtain ⟨k, hk, hyields⟩ := hreads.yields.exists_mem (mem_of_mem_statements hs)
        exact hyields.params_nodup (hreads.distinct k hk)
      · have hmem : Statement.definition d ∈ (ofStatements ss).close.statements := by
          simp [statements, hd]
        exact hlimit d.body (hreads.heights _ (mem_of_mem_statements hmem))
      · have hmem : Statement.expression e ∈ (ofStatements ss).close.statements := by
          simp [statements, he]
        exact hlimit e (hreads.heights _ (mem_of_mem_statements hmem))

/-- The statements of a program that can be printed keep the nesting limit. -/
theorem Printable.height_le {p : Program} {limit : Int} (h : p.Printable limit) :
    ∀ s ∈ p.statements, s.height ≤ limit.toNat := by
  intro s hs
  simp only [statements, List.mem_append, List.mem_map] at hs
  rcases hs with (⟨q, _, rfl⟩ | ⟨d, hd, rfl⟩) | ⟨e, he, rfl⟩
  · exact Nat.zero_le _
  · have := h.bodies d hd
    exact (Int.le_toNat (by omega)).mpr this
  · have := h.expressions e he
    exact (Int.le_toNat (by omega)).mpr this

end Program

end Formulary
