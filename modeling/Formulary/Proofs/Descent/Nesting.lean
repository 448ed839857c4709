import Formulary.Proofs.Descent.Prefix
import Formulary.Proofs.Descent.Unstacked
import Formulary.Proofs.Grammar.Groups

/-!
# The nesting limit is exact

Two counters of the parser and the heights that it notes down refuse a token list for its nesting.
Together they refuse it for exactly two reasons: an expression of the program is higher than the
limit, or more grouping parentheses than that are open at some place. Lists that are read within
different limits are read as the same program, so it makes sense to speak of the program of a list
that some limit refuses.
-/

namespace Formulary

namespace Program

/-- The expressions of a program are no higher than a bound if its statements are not. -/
theorem heights_ofStatements (ss : List Statement) (bound : Nat) :
    ((∀ d ∈ (ofStatements ss).close.definitions, d.body.height ≤ bound) ∧
      ∀ e ∈ (ofStatements ss).close.expressions, e.height ≤ bound) ↔
    ∀ s ∈ ss, s.height ≤ bound := by
  have hdefinitions : (ofStatements ss).close.definitions = ss.filterMap Statement.definition? :=
    definitions_ofStatements ss
  have hexpressions : (ofStatements ss).close.expressions = ss.filterMap Statement.expression? :=
    expressions_ofStatements ss
  rw [hdefinitions, hexpressions]
  simp only [List.mem_filterMap]
  constructor
  · rintro ⟨hd, he⟩ s hs
    cases s with
    | foreign q => exact Nat.zero_le _
    | definition d => exact hd d ⟨_, hs, rfl⟩
    | expression e => exact he e ⟨_, hs, rfl⟩
  · intro h
    constructor
    · rintro d ⟨s, hs, hd⟩
      cases s <;> cases hd
      exact h _ hs
    · rintro e ⟨s, hs, he⟩
      cases s <;> cases he
      exact h _ hs

end Program

namespace Parser

open Descent

/-- A statement that is read leaves as many tokens behind and ahead as there were. -/
theorem statement_keeps {limit : Int} {c after : Cursor} {o : Option Statement}
    (h : statement limit c = (.ok o, after)) :
    after.index + after.rest.length = c.index + c.rest.length := by
  have hreads := statement_reads limit c
  rw [h] at hreads
  obtain ⟨_, ⟨ts, _, hrest, hconsumed⟩, _⟩ := hreads
  rw [Cursor.index, Cursor.index, hrest, hconsumed]
  simp only [List.length_append, List.length_reverse]
  omega

/-- Statements that are read from near cursors to the end, within any two limits, are the same. -/
theorem statementsFrom_same (limit limit' : Int) {window steps steps' : Nat}
    (before : List Statement) {c c' : Cursor} (hsteps : c.rest.length < steps)
    (hsteps' : c'.rest.length < steps') (hnear : Near window c c')
    (hwindow : c.index + c.rest.length < window)
    (h : (statementsFrom limit steps before c).mistake = none)
    (h' : (statementsFrom limit' steps' before c').mistake = none) :
    (statementsFrom limit steps before c).statements =
      (statementsFrom limit' steps' before c').statements := by
  induction steps generalizing steps' before c c' with
  | zero => contradiction
  | succ steps ih =>
    obtain ⟨steps', rfl⟩ := Nat.exists_eq_add_one_of_ne_zero (Nat.ne_zero_of_lt hsteps')
    have hstatement := statement_inStep limit limit' hnear
    have hempty : c'.rest.isEmpty = c.rest.isEmpty := by
      rcases hnear.uncons (by omega) with ⟨hc, hc'⟩ | ⟨t, rest, rest', hc, hc', _⟩
      · rw [hc, hc']
      · rw [hc, hc', List.isEmpty_cons, List.isEmpty_cons]
    unfold statementsFrom at h h' ⊢
    rw [hempty] at h' ⊢
    split at h
    · next hend => rw [if_pos hend, if_pos hend]
    · next hmore =>
      rw [if_neg hmore] at h' ⊢
      rw [if_neg hmore]
      split at h
      · contradiction
      · next o after hok =>
        have hkeeps := statement_keeps hok
        have hshort := statement_shortens hok
        rw [hok] at hstatement
        rcases hstatement (by omega) with ⟨e', after', hc', _⟩ | ⟨after', hc', hafter⟩
        · rw [hc'] at h'
          contradiction
        · have hshort' := statement_shortens hc'
          rw [hc'] at h' ⊢
          exact ih _ (by omega) (by omega) hafter (by omega) h h'

/-- A token list that is read within two limits is read as the same program. -/
theorem parse_unique {tokens : List Token} {limit limit' : Int} {p q : Program}
    (hp : parse tokens limit = .ok p) (hq : parse tokens limit' = .ok q) : p = q := by
  unfold parse Reading.program at hp hq
  split at hp
  · contradiction
  · next hnone =>
    split at hq
    · contradiction
    · next hnone' =>
      have hnear : Near (tokens.length + 1) (.start tokens) (.start tokens) := .start rfl
      have hsame := statementsFrom_same limit limit' [] (Nat.lt_succ_self _) (Nat.lt_succ_self _)
        hnear (by simp [Cursor.start, Cursor.index]) hnone hnone'
      rw [← Except.ok.inj hp, ← Except.ok.inj hq]
      exact congrArg (fun ss => (Program.ofStatements ss).close) hsame

/-- A program keeps to a nesting limit: its expressions are no higher, and at no place of its tokens
are more grouping parentheses open. -/
structure KeepsTo (limit : Nat) (tokens : List Token) (p : Program) : Prop where
  definitions : ∀ d ∈ p.definitions, d.body.height ≤ limit
  expressions : ∀ e ∈ p.expressions, e.height ≤ limit
  groups : ∀ i, openGroups ((tokens.map Token.content).take i) ≤ limit

/-- What is read within a limit keeps to it. -/
theorem keepsTo_of_parse {tokens : List Token} {limit : Nat} {p : Program}
    (h : parse tokens limit = .ok p) : KeepsTo limit tokens p := by
  obtain ⟨ks, ss, after, hreads, hend, rfl⟩ := parse_reads h
  have hspell := hreads.spells.all hend
  have hheights := (Program.heights_ofStatements ss limit).mpr hreads.heights
  have hgroups := (groups_le_iff_openGroups_le ks limit).mp hreads.groups
  rw [hspell] at hgroups
  exact ⟨hheights.1, hheights.2, hgroups⟩

/-- What is read within some limit is read within any limit that it keeps to. -/
theorem parse_of_keepsTo {tokens : List Token} {limit : Int} {p : Program} {bound : Nat}
    (h : parse tokens limit = .ok p) (hkeeps : KeepsTo bound tokens p) :
    parse tokens bound = .ok p := by
  obtain ⟨ks, ss, after, hreads, hend, -⟩ := parse_reads h
  have hspell : spellAll true (ks.map Clause.settle) = tokens.map Token.content :=
    (spellAll_map_settle true ks).trans (hreads.spells.all hend)
  -- Within a limit that is wide enough the clauses are read as what they say, which shows how high
  -- their expressions are.
  obtain ⟨wide, hwide⟩ := exists_fits ks hreads.distinct
  obtain ⟨ss, hparse, hbare⟩ := parse_finds hspell hwide
  obtain rfl := parse_unique h hparse
  have hheights := (Program.heights_ofStatements ss bound).mp
    ⟨hkeeps.definitions, hkeeps.expressions⟩
  have hgroups := hkeeps.groups
  rw [← hspell, ← groups_le_iff_openGroups_le] at hgroups
  have hfits : ∀ k ∈ ks.map Clause.settle, k.Fits bound := by
    intro k hk
    obtain ⟨hsettled, hdistinct, _, _⟩ := hwide k hk
    refine ⟨hsettled, hdistinct, fun s hs => ?_, hgroups k hk⟩
    have hmem : s ∈ ss.map Statement.bare := by
      rw [hbare]
      exact List.mem_filterMap.mpr ⟨k, hk, hs⟩
    obtain ⟨s', hs', rfl⟩ := List.mem_map.mp hmem
    rw [Statement.height_bare]
    exact hheights s' hs'
  obtain ⟨_, hfound, _⟩ := parse_finds hspell hfits
  rw [hfound, parse_unique hfound h]

/-- What is read within some limit is refused for its nesting within a limit that it does not keep to.
-/
theorem refused_of_not_keepsTo {tokens : List Token} {limit : Int} {p : Program} {bound : Nat}
    (h : parse tokens limit = .ok p) (hkeeps : ¬ KeepsTo bound tokens p) :
    ∃ e, parse tokens bound = .error e ∧ e.IsNesting := by
  cases hbound : parse tokens bound with
  | ok q =>
    obtain rfl := parse_unique h hbound
    exact absurd (keepsTo_of_parse hbound) hkeeps
  | error e =>
    refine ⟨e, rfl, Classical.byContradiction fun hnesting => ?_⟩
    exact parse_ne_ok_of_take hbound hnesting rfl limit p h

end Parser

end Formulary
