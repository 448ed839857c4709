import Formulary.Proofs.Descent.Correspondence
import Formulary.Proofs.Descent.Nesting

/-!
# From statement to statement

A token list is read statement by statement. `Passes` is the reading of some statements, `Comes` that
of all up to the end or to the first mistake, and both know nothing of step counts. A statement ends
with its semicolon, and the reader has not looked further; so it is read in the same way whatever
comes behind (`statement_extend`), and nothing of it is carried over to the next one.
-/

namespace Formulary.Parser

open Descent

/-! ### Descents that end with a token -/

section

variable {α β : Type} {window : Nat}

/-- The first descent ends by taking a token, and the second stays in step with it even where that
is the last token of the window. -/
structure Closes (window : Nat) (p p' : Descent α) : Prop where
  takes : ∀ c, (p c).Ends (fun _ after => c.index < after.index) fun _ _ => True
  inStep : ∀ c c', Near window c c' → (p c).Ends
    (fun a after => after.index ≤ window →
      (p' c').Escapes ∨ ∃ after', p' c' = .success a after' ∧ Near window after after')
    fun _ _ => True

namespace Closes

theorem expect (k : TokenKind) (context : Option String) :
    Closes window (Descent.expect k context) (Descent.expect k context) := by
  refine ⟨fun c => ends_expect (fun _ _ _ _ => Nat.lt_succ_self _) trivial, fun c c' hnear => ?_⟩
  apply ends_expect
  · intro t rest hc hkind hwindow
    rcases hnear.uncons hwindow with ⟨hnil, _⟩ | ⟨u, rest₁, rest', hc₁, hc', hpass⟩
    · rw [hc] at hnil
      contradiction
    · obtain ⟨rfl, rfl⟩ := List.cons.inj (hc.symm.trans hc₁)
      refine .inr ⟨_, ?_, hpass⟩
      have hchoose : ofKind k t = some () := if_pos hkind
      change Descent.bind (take (ofKind k) _) _ c' = _
      simp only [Descent.bind, take, hc', hchoose]
      rfl
  · trivial

/-- A sequence ends with a token if its second part does. -/
theorem bind {p p' : Descent α} {f f' : α → Descent β} (hp : Lockstep window p p')
    (hf : ∀ a, Closes window (f a) (f' a)) : Closes window (p >>= f) (p' >>= f') := by
  constructor
  · intro c
    apply (ends_bind p f).mpr
    apply Outcome.Ends.mono (hp.onward c)
    · intro a mid hmid
      exact Outcome.Ends.mono ((hf a).takes mid) (fun _ _ => Nat.lt_of_le_of_lt hmid) fun _ _ h => h
    · intros
      trivial
  · intro c c' hnear
    have hstep := hp.inStep c c' hnear
    apply (ends_bind p f).mpr
    cases hpc : p c with
    | failure e after => trivial
    | cutShort => trivial
    | success a mid =>
      rw [hpc] at hstep
      change (f a mid).Ends _ _
      have htakes := (hf a).takes mid
      have hinStep := (hf a).inStep mid
      cases hfa : f a mid with
      | failure e after => trivial
      | cutShort => trivial
      | success b after =>
        rw [hfa] at htakes hinStep
        intro hwindow
        rcases hstep (Nat.lt_of_lt_of_le htakes hwindow) with hescapes | ⟨mid', hpc', hmid⟩
        · exact .inl (hescapes.bind f')
        · change (Descent.bind p' f' c').Escapes ∨ ∃ after', Descent.bind p' f' c' = _ ∧ _
          simp only [Descent.bind, hpc']
          exact hinStep mid' hmid hwindow

/-- What is made of the value afterwards takes no token. -/
theorem map {p p' : Descent α} (h : Closes window p p') (g : α → β) :
    Closes window (p >>= fun a => pure (g a)) (p' >>= fun a => pure (g a)) := by
  constructor
  · intro c
    exact (ends_bind p _).mpr (h.takes c)
  · intro c c' hnear
    apply (ends_bind p _).mpr
    apply Outcome.Ends.mono (h.inStep c c' hnear)
    · intro a after hstep hwindow
      rcases hstep hwindow with hescapes | ⟨after', hpc', hafter⟩
      · exact .inl (hescapes.bind _)
      · refine .inr ⟨after', ?_, hafter⟩
        change Descent.bind p' _ c' = _
        simp only [Descent.bind, hpc']
        rfl
    · intros
      trivial

variable (fuel fuel' : Nat) (limit limit' : Int)

theorem foreignWithin :
    Closes window (Parser.foreignWithin fuel) (Parser.foreignWithin fuel') :=
  bind (Lockstep.expect _ _) fun _ => bind (Lockstep.prototypeWithin _ _ _) fun _ =>
    (expect _ _).map _

theorem definitionWithin :
    Closes window (Parser.definitionWithin fuel limit) (Parser.definitionWithin fuel' limit') :=
  bind (Lockstep.expect _ _) fun _ => bind (Lockstep.prototypeWithin _ _ _) fun _ =>
    bind ((lockstep_within _ _).1 _ _ _) fun _ => (expect _ _).map _

/-- A statement ends with a token. -/
theorem statementWithin :
    Closes window (Parser.statementWithin fuel limit) (Parser.statementWithin fuel' limit') := by
  have formula : Closes window
      (do
        let e ← expressionWithin fuel { limit }
        let _ ← Descent.expect (.punctuation .semicolon) "after top-level expression"
        return some (Statement.expression e.expr))
      (do
        let e ← expressionWithin fuel' { limit := limit' }
        let _ ← Descent.expect (.punctuation .semicolon) "after top-level expression"
        return some (Statement.expression e.expr)) :=
    bind ((lockstep_within _ _).1 _ _ _) fun _ => (expect _ _).map _
  apply bind Lockstep.peek
  intro next
  cases next.kind with
  | keyword w =>
    cases w with
    | externWord => exact (foreignWithin fuel fuel').map _
    | defWord => exact (definitionWithin fuel fuel' limit limit').map _
    | _ => exact formula
  | punctuation m =>
    cases m with
    | semicolon => exact (expect _ _).map _
    | _ => exact formula
  | _ => exact formula

end Closes

end

/-! ### One statement -/

section

variable {limit : Int} {c after : Cursor} {o : Option Statement}

/-- A cursor is near itself. -/
theorem Near.refl (window : Nat) (c : Cursor) : Near window c c := ⟨rfl, fun _ _ => rfl⟩

/-- What is read as a statement is a clause that fits within the limit and says the statement. -/
theorem statement_fits (h : statement limit c = (.ok o, after)) :
    ∃ k : Clause, k.Fits limit ∧ c.Spells (k.spell true) after ∧
      o.map Statement.bare = k.statement := by
  have hreads := statement_reads limit c
  rw [h] at hreads
  obtain ⟨k, hspells, hdistinct, _, hheight, hgroups⟩ := hreads
  -- Within a limit that is wide enough the settled clause is read as what it says, and the same
  -- statement is read within the given one.
  obtain ⟨wide, hwide⟩ := exists_fits [k] (by simpa using hdistinct)
  have hfits : k.settle.Fits wide := hwide _ (by simp)
  have hahead : c.ahead = k.settle.spell true ++ after.ahead := by
    obtain ⟨ts, hts, hrest, _⟩ := hspells
    rw [k.spell_settle, ← hts, Cursor.ahead, hrest, List.map_append]
    rfl
  obtain ⟨o', after', hstatement, hbare, _⟩ := statement_finds hfits hahead
  have hstep := statement_inStep limit wide (.refl (after.index + 1) c)
  rw [h] at hstep
  obtain rfl : o = o' := by
    rcases hstep (Nat.lt_succ_self _) with ⟨e, last, herror, _⟩ | ⟨last, hok, _⟩
    · rw [hstatement] at herror
      cases herror
    · rw [hstatement] at hok
      cases hok
      rfl
  refine ⟨k.settle, ⟨hfits.settled, hfits.distinct, ?_, ?_⟩, ?_, hbare⟩
  · intro s hs
    rw [← hbare] at hs
    obtain ⟨s', hs', rfl⟩ := Option.map_eq_some_iff.mp hs
    rw [Statement.height_bare]
    exact hheight s' hs'
  · have hopen := (groups_le_iff_openGroups_le [k] limit.toNat).mp (by simpa using hgroups)
    have hspell : spellAll true [k] = spellAll true [k.settle] :=
      (spellAll_map_settle true [k]).symm
    rw [hspell] at hopen
    simpa using (groups_le_iff_openGroups_le [k.settle] limit.toNat).mpr hopen
  · rwa [k.spell_settle]

/-- The cursor with more tokens behind the list. -/
def Cursor.extend (c : Cursor) (more : List Token) : Cursor := { c with rest := c.rest ++ more }

/-- A statement is read in the same way whatever comes behind the list. -/
theorem statement_extend (h : statement limit c = (.ok o, after)) (more : List Token) :
    statement limit (c.extend more) = (.ok o, after.extend more) := by
  obtain ⟨k, hfits, hspells, _⟩ := statement_fits h
  obtain ⟨ts, hts, hrest, hconsumed⟩ := hspells
  have hahead : (c.extend more).ahead = k.spell true ++ (after.extend more).ahead := by
    rw [Cursor.ahead, Cursor.ahead, Cursor.extend, Cursor.extend, ← hts, hrest, List.append_assoc,
      List.map_append]
  obtain ⟨o', after', hstatement, _, hafter'⟩ := statement_finds hfits hahead
  have hnear : Near (c.index + c.rest.length) c (c.extend more) := by
    refine ⟨rfl, fun i hi => ?_⟩
    rw [Cursor.extend, List.getElem?_append_left (by omega)]
  have hwindow : after.index ≤ c.index + c.rest.length := by
    rw [Cursor.index, Cursor.index, hconsumed, hrest]
    simp only [List.length_append, List.length_reverse]
    omega
  have hcloses := (Closes.statementWithin (4 * c.rest.length + 3)
    (4 * (c.extend more).rest.length + 3) limit limit).inStep c _ hnear
  rw [(finish_eq_ok _).mp h] at hcloses
  have hextended := (finish_eq_ok _).mp hstatement
  rcases hcloses hwindow with hescapes | ⟨last, hlast, hnear'⟩
  · rw [hextended] at hescapes
    exact hescapes.elim
  · rw [hextended] at hlast
    obtain ⟨rfl, rfl⟩ := Outcome.success.inj hlast
    rw [hstatement]
    -- The cursor has passed the same tokens, and so has the same ahead and what comes behind.
    have hreads := statement_reads limit (c.extend more)
    rw [hstatement] at hreads
    obtain ⟨_, ⟨us, _, hrest', hconsumed'⟩, _⟩ := hreads
    have hus : us = ts := by
      rw [← hnear'.consumed, hconsumed] at hconsumed'
      exact (List.reverse_injective (List.append_cancel_right hconsumed')).symm
    rw [hus, Cursor.extend, hrest, List.append_assoc] at hrest'
    have hahead := List.append_cancel_left hrest'
    obtain ⟨consumed', rest'⟩ := after'
    rw [Cursor.extend, hnear'.consumed, hahead]

/-- A statement is read only where there is a token. -/
theorem rest_ne_nil_of_statement (h : statement limit c = (.ok o, after)) : c.rest ≠ [] :=
  List.ne_nil_of_length_pos (Nat.lt_of_le_of_lt (Nat.zero_le _) (statement_shortens h))

end

namespace Correspondence

variable {r : Correspondence} {limit : Int} {c c' : Cursor}

/-- Side by side the same statement is read. -/
theorem statement_ok {o : Option Statement} {after : Cursor} (hbeside : r.Beside c c')
    (h : statement limit c = (.ok o, after)) : ∃ o' after', statement limit c' = (.ok o', after') ∧
      o.map (Statement.through r.left) = o'.map (Statement.through r.right) ∧
        r.Beside after after' := by
  have hmatches := Parallel.statementWithin (4 * c.rest.length + 3) (4 * c'.rest.length + 3) limit
    c c' hbeside (.inr (rest_ne_nil_of_statement h))
  have hanswers := (@answers_statementWithin _ c'.rest.length (Nat.le_refl _) limit).ne_cutShort
    (Nat.le_refl _)
  rw [(finish_eq_ok _).mp h] at hmatches
  obtain ⟨o', after', ho, hsame, hafter⟩ := hmatches.success hanswers
  exact ⟨o', after', (finish_eq_ok hanswers).mpr ho, hsame, hafter⟩

/-- Side by side the corresponding mistake is found. -/
theorem statement_error {e : SyntaxError} {after : Cursor} (hbeside : r.Beside c c')
    (hahead : c.rest ≠ []) (h : statement limit c = (.error e, after)) :
    ∃ e' after', statement limit c' = (.error e', after') ∧ r.Mistakes e e' := by
  have hmatches := Parallel.statementWithin (4 * c.rest.length + 3) (4 * c'.rest.length + 3) limit
    c c' hbeside (.inr hahead)
  have hanswers := (@answers_statementWithin _ c'.rest.length (Nat.le_refl _) limit).ne_cutShort
    (Nat.le_refl _)
  rw [(finish_eq_error _).mp h] at hmatches
  obtain ⟨e', after', he, hmistakes⟩ := hmatches.failure hanswers
  exact ⟨e', after', (finish_eq_error hanswers).mpr he, hmistakes⟩

end Correspondence

/-! ### Many statements -/

/-- Statements are read one after the other; an empty one says nothing. -/
inductive Passes (limit : Int) : Cursor → List Statement → Cursor → Prop where
  | nil {c} : Passes limit c [] c
  | cons {c mid after o ss} (first : statement limit c = (.ok o, mid))
    (others : Passes limit mid ss after) : Passes limit c (o.toList ++ ss) after

/-- All statements are read up to the end, or up to a mistake. -/
inductive Comes (limit : Int) (c : Cursor) (ss : List Statement) : Option SyntaxError → Prop where
  | finished {after} (passes : Passes limit c ss after) (ended : after.rest = []) :
    Comes limit c ss none
  | stopped {mid e after} (passes : Passes limit c ss mid) (ahead : mid.rest ≠ [])
    (mistake : statement limit mid = (.error e, after)) : Comes limit c ss (some e)

section

variable {limit : Int} {c c' mid after : Cursor} {ss more : List Statement} {o : Option SyntaxError}

/-- Statements are read, and then all others. -/
theorem Passes.comes (h : Passes limit c ss mid) (h' : Comes limit mid more o) :
    Comes limit c (ss ++ more) o := by
  induction h with
  | nil => exact h'
  | cons first _ ih =>
    rw [List.append_assoc]
    cases ih h' with
    | finished passes ended => exact .finished (.cons first passes) ended
    | stopped passes ahead mistake => exact .stopped (.cons first passes) ahead mistake

/-- Reading comes to the end or to a mistake. -/
theorem exists_comes (limit : Int) (c : Cursor) : ∃ ss o, Comes limit c ss o := by
  induction hlength : c.rest.length using Nat.strongRecOn generalizing c with
  | _ n ih =>
    by_cases hend : c.rest = []
    · exact ⟨[], none, .finished .nil hend⟩
    · rcases hstatement : statement limit c with ⟨answer, after⟩
      cases answer with
      | error e => exact ⟨[], some e, .stopped .nil hend hstatement⟩
      | ok first =>
        obtain ⟨ss, o, hcomes⟩ := ih _ (hlength ▸ statement_shortens hstatement) after rfl
        have hpasses : Passes limit c (first.toList ++ []) after := .cons hstatement .nil
        exact ⟨_, o, hpasses.comes hcomes⟩

/-- The steps that reading has do not matter if there are more than tokens. -/
theorem Passes.statementsFrom (h : Passes limit c ss after) {steps : Nat}
    (hsteps : c.rest.length < steps) (before : List Statement) : ∃ steps',
      after.rest.length < steps' ∧ statementsFrom limit steps before c =
        statementsFrom limit steps' (ss.reverse ++ before) after := by
  induction h generalizing steps before with
  | nil => exact ⟨steps, hsteps, rfl⟩
  | @cons c mid after first ss hfirst _ ih =>
    obtain ⟨steps, rfl⟩ := Nat.exists_eq_add_one_of_ne_zero (Nat.ne_zero_of_lt hsteps)
    have hshort := statement_shortens hfirst
    have hfewer : mid.rest.length < steps := by omega
    obtain ⟨steps', hsteps', hothers⟩ := ih hfewer (first.toList ++ before)
    have hmore : ¬ c.rest.isEmpty = true := by
      simpa using rest_ne_nil_of_statement hfirst
    refine ⟨steps', hsteps', ?_⟩
    rw [Parser.statementsFrom, if_neg hmore, hfirst]
    simp only
    rw [hothers]
    cases first <;> simp

/-- What is read up to the end is parsed. -/
theorem Comes.parse_ok {tokens : List Token} (h : Comes limit (.start tokens) ss none) :
    parse tokens limit = .ok (Program.ofStatements ss).close := by
  cases h with
  | finished passes ended =>
    have henough : (Cursor.start tokens).rest.length < tokens.length + 1 := Nat.lt_succ_self _
    obtain ⟨steps, hsteps, hread⟩ := passes.statementsFrom henough []
    obtain ⟨steps, rfl⟩ := Nat.exists_eq_add_one_of_ne_zero (Nat.ne_zero_of_lt hsteps)
    rw [parse, read, hread, statementsFrom, if_pos (by simp [ended])]
    simp [Reading.program]

/-- What is read up to a mistake is refused with it. -/
theorem Comes.parse_error {tokens : List Token} {e : SyntaxError}
    (h : Comes limit (.start tokens) ss (some e)) : parse tokens limit = .error e := by
  cases h with
  | stopped passes ahead mistake =>
    have henough : (Cursor.start tokens).rest.length < tokens.length + 1 := Nat.lt_succ_self _
    obtain ⟨steps, hsteps, hread⟩ := passes.statementsFrom henough []
    obtain ⟨steps, rfl⟩ := Nat.exists_eq_add_one_of_ne_zero (Nat.ne_zero_of_lt hsteps)
    rw [parse, read, hread, statementsFrom, if_neg (by simpa using ahead), mistake]
    simp [Reading.program]

/-- Statements are read in the same way whatever comes behind the list. -/
theorem Passes.extend (h : Passes limit c ss after) (tokens : List Token) :
    Passes limit (c.extend tokens) ss (after.extend tokens) := by
  induction h with
  | nil => exact .nil
  | cons first _ ih => exact .cons (statement_extend first tokens) ih

variable {r : Correspondence}

/-- Side by side the same statements are read. -/
theorem Passes.beside (h : Passes limit c ss after) (hbeside : r.Beside c c') :
    ∃ ss' after', Passes limit c' ss' after' ∧
      ss.map (Statement.through r.left) = ss'.map (Statement.through r.right) ∧
        r.Beside after after' := by
  induction h generalizing c' with
  | nil => exact ⟨[], c', .nil, rfl, hbeside⟩
  | cons first _ ih =>
    obtain ⟨o', mid', first', hsame, hmid⟩ := Correspondence.statement_ok hbeside first
    obtain ⟨ss', after', others', hothers, hafter⟩ := ih hmid
    refine ⟨o'.toList ++ ss', after', .cons first' others', ?_, hafter⟩
    rw [List.map_append, List.map_append, hothers, ← Option.toList_map, ← Option.toList_map, hsame]

/-- Side by side reading comes to the same. -/
theorem Comes.beside (h : Comes limit c ss o) (hbeside : r.Beside c c') :
    ∃ ss' o', Comes limit c' ss' o' ∧
      ss.map (Statement.through r.left) = ss'.map (Statement.through r.right) ∧
        Option.Rel r.Mistakes o o' := by
  cases h with
  | finished passes ended =>
    obtain ⟨ss', after', passes', hsame, hafter⟩ := passes.beside hbeside
    have hrest := hafter.rest
    rw [ended] at hrest
    exact ⟨ss', none, .finished passes' (List.forall₂_nil_left_iff.mp hrest), hsame, .none⟩
  | stopped passes ahead mistake =>
    obtain ⟨ss', mid', passes', hsame, hmid⟩ := passes.beside hbeside
    obtain ⟨e', after', mistake', he⟩ := Correspondence.statement_error hmid ahead mistake
    have ahead' : mid'.rest ≠ [] := by
      intro hnil
      have hrest := hmid.rest
      rw [hnil] at hrest
      exact ahead (List.forall₂_nil_right_iff.mp hrest)
    exact ⟨ss', some e', .stopped passes' ahead' mistake', hsame, .some he⟩

end

end Formulary.Parser
