import Formulary.Proofs.Descent.Acceptance
import Formulary.Proofs.Descent.Lockstep

/-!
# Mistakes are found at the first impossible token

Where the parser blames a token, some program begins with the tokens before it, and none begins with
those and the token itself. The first half is what `Stuck` says. The second is that a run on any list
that begins alike stays in step with this one up to the token, and so stops there as well.
-/

namespace Formulary.Parser

open Descent

section

variable {window : Nat} {c c' : Cursor} (limit limit' : Int)

/-- A statement read from near cursors comes to the same, within the window. -/
theorem statement_inStep (h : Near window c c') :
    match statement limit c with
    | (.ok o, after) => after.index < window →
      (∃ e after', statement limit' c' = (.error e, after') ∧ e.IsNesting) ∨
      ∃ after', statement limit' c' = (.ok o, after') ∧ Near window after after'
    | (.error e, after) => e.IsNesting ∨ (e.index after < window →
      (∃ e after', statement limit' c' = (.error e, after') ∧ e.IsNesting) ∨
      ∃ after', statement limit' c' = (.error e, after') ∧ Near window after after') := by
  have hstep := (Lockstep.statementWithin window (4 * c.rest.length + 3) (4 * c'.rest.length + 3)
    limit limit').inStep c c' h
  have hanswers := (@answers_statementWithin _ c'.rest.length (Nat.le_refl _) limit').ne_cutShort
    (Nat.le_refl _)
  have hnesting (ho : (statementWithin (4 * c'.rest.length + 3) limit' c').Escapes) :
      ∃ e after', statement limit' c' = (.error e, after') ∧ e.IsNesting := by
    cases hc' : statementWithin (4 * c'.rest.length + 3) limit' c' with
    | success a after =>
      rw [hc'] at ho
      exact ho.elim
    | failure e after =>
      rw [hc'] at ho
      exact ⟨e, after, (finish_eq_error hanswers).mpr hc', ho⟩
    | cutShort => exact absurd hc' hanswers
  split
  · next o after hok =>
    rw [(finish_eq_ok _).mp hok] at hstep
    intro hwindow
    rcases hstep hwindow with hescapes | ⟨after', hc', hnear⟩
    · exact .inl (hnesting hescapes)
    · exact .inr ⟨after', (finish_eq_ok hanswers).mpr hc', hnear⟩
  · next e after herror =>
    rw [(finish_eq_error _).mp herror] at hstep
    apply hstep.imp_right
    intro hstep hwindow
    rcases hstep hwindow with hescapes | ⟨after', hc', hnear⟩
    · exact .inl (hnesting hescapes)
    · exact .inr ⟨after', (finish_eq_error hanswers).mpr hc', hnear⟩

/-- Reading a statement goes onward. -/
theorem statement_onward (c : Cursor) :
    match statement limit c with
    | (.ok _, after) => c.index ≤ after.index
    | (.error e, after) => e.IsNesting ∨ c.index ≤ e.index after := by
  have honward := (Lockstep.statementWithin 0 (4 * c.rest.length + 3) 0 limit limit).onward c
  split
  · next o after hok =>
    rw [(finish_eq_ok _).mp hok] at honward
    exact honward
  · next e after herror =>
    rw [(finish_eq_error _).mp herror] at honward
    exact honward

/-- No token before the place where reading started is to blame. -/
theorem statementsFrom_onward {steps : Nat} {before : List Statement} {e : SyntaxError}
    (he : (statementsFrom limit steps before c).mistake = some e) (hnesting : ¬ e.IsNesting) :
    c.index ≤ e.index (statementsFrom limit steps before c).cursor := by
  induction steps generalizing before c with
  | zero => contradiction
  | succ steps ih =>
    have honward := statement_onward limit c
    unfold statementsFrom at he ⊢
    split at he
    · contradiction
    · next hmore =>
      rw [if_neg hmore]
      split at he
      · next e' after herror =>
        rw [herror] at honward
        obtain rfl := Option.some.inj he
        exact honward.resolve_left hnesting
      · next o after hok =>
        rw [hok] at honward
        exact Nat.le_trans honward (ih he)

/-- A mistake that is found within the window is found on any list that begins alike, unless the
nesting limit stops the reader before. -/
theorem statementsFrom_inStep {steps steps' : Nat} {before : List Statement}
    (before' : List Statement) {e : SyntaxError} (hsteps : c'.rest.length < steps') (h : Near window c c')
    (he : (statementsFrom limit steps before c).mistake = some e) (hnesting : ¬ e.IsNesting)
    (hwindow : e.index (statementsFrom limit steps before c).cursor < window) :
    ∃ e', (statementsFrom limit' steps' before' c').mistake = some e' ∧ (e'.IsNesting ∨ e' = e ∧
      Near window (statementsFrom limit steps before c).cursor
        (statementsFrom limit' steps' before' c').cursor) := by
  induction steps generalizing steps' before before' c c' with
  | zero => contradiction
  | succ steps ih =>
    have hplace := Nat.lt_of_le_of_lt (statementsFrom_onward limit he hnesting) hwindow
    have hstatement := statement_inStep limit limit' h
    have hempty : c'.rest.isEmpty = c.rest.isEmpty := by
      rcases h.uncons hplace with ⟨hc, hc'⟩ | ⟨t, rest, rest', hc, hc', _⟩
      · rw [hc, hc']
      · rw [hc, hc', List.isEmpty_cons, List.isEmpty_cons]
    obtain ⟨steps', rfl⟩ := Nat.exists_eq_add_one_of_ne_zero (Nat.ne_zero_of_lt hsteps)
    unfold statementsFrom at he hwindow ⊢
    rw [hempty]
    split at he
    · contradiction
    · next hmore =>
      rw [if_neg hmore] at hwindow ⊢
      rw [if_neg hmore]
      split at he
      · next e₁ after herror =>
        rw [herror] at hstatement hwindow
        obtain rfl := Option.some.inj he
        rcases hstatement.resolve_left hnesting hwindow with ⟨e', after', hc', he'⟩ | ⟨after', hc', hnear⟩
        · rw [hc']
          exact ⟨e', rfl, .inl he'⟩
        · rw [hc']
          exact ⟨e₁, rfl, .inr ⟨rfl, hnear⟩⟩
      · next o after hok =>
        rw [hok] at hstatement hwindow
        have hafter := Nat.lt_of_le_of_lt (statementsFrom_onward limit he hnesting) hwindow
        rcases hstatement hafter with ⟨e', after', hc', he'⟩ | ⟨after', hc', hnear⟩
        · rw [hc']
          exact ⟨e', rfl, .inl he'⟩
        · have hshort := statement_shortens hc'
          rw [hc']
          exact ih _ (by omega) hnear he hwindow

end

/-- Lists that begin alike are near at their start. -/
theorem Near.start {tokens list : List Token} {window : Nat}
    (h : list.take window = tokens.take window) :
    Near window (Cursor.start tokens) (Cursor.start list) := by
  refine ⟨rfl, fun i hi => ?_⟩
  have hi : i < window := by simpa [Cursor.start, Cursor.index] using hi
  have := congrArg (·[i]?) h
  simp only [List.getElem?_take, if_pos hi] at this
  exact this.symm

/-- A mistake that is no matter of nesting is the mistake of every list that begins alike, up to the
token that is blamed. -/
theorem parse_ne_ok_of_take {tokens list : List Token} {limit : Int} {e : SyntaxError}
    (h : parse tokens limit = .error e) (hnesting : ¬ e.IsNesting)
    (hlist : list.take (e.index (read tokens limit).cursor + 1) =
      tokens.take (e.index (read tokens limit).cursor + 1)) (limit' : Int) (p : Program) :
    parse list limit' ≠ .ok p := by
  have he : (read tokens limit).mistake = some e := by
    unfold parse Reading.program at h
    split at h
    · next e' he' => rw [he', Except.error.inj h]
    · contradiction
  obtain ⟨e', he', _⟩ := statementsFrom_inStep limit limit' [] (Nat.lt_succ_self _) (.start hlist) he
    hnesting (Nat.lt_succ_self _)
  intro hok
  unfold parse Reading.program at hok
  split at hok
  · contradiction
  · next hnone => exact absurd (hnone.symm.trans he') (by simp)

/-- The tokens before the place where the reader is stuck. -/
theorem Cursor.Spells.take {tokens : List Token} {words : List TokenContent} {front : Cursor}
    (h : (Cursor.start tokens).Spells words front) :
    front.index ≤ tokens.length ∧ words = (tokens.take front.index).map Token.content ∧
      (tokens[front.index]? = some front.current ∨
        front.index = tokens.length ∧ front.current.content = .endOfInput) := by
  obtain ⟨ts, rfl, hrest, hconsumed⟩ := h
  have htokens : tokens = ts ++ front.rest := hrest
  have hindex : front.index = ts.length := by simp [Cursor.index, hconsumed, Cursor.start]
  rw [hindex, htokens]
  refine ⟨by simp, by simp, ?_⟩
  unfold Cursor.current
  cases front.rest with
  | nil => exact .inr ⟨by simp, rfl⟩
  | cons t rest => exact .inl (by simp)

/-- A mistake that is no matter of nesting is blamed on the first token that is impossible: with `k`
its index, or the number of tokens where they ran out, the tokens before it are the beginning of some
list that is accepted within some nesting limit, and no list that begins with those and the token is
accepted within any; nor is the list itself where the tokens ran out. -/
theorem mistake_at_first_impossible_token {tokens : List Token} {limit : Int} {e : SyntaxError}
    (h : parse tokens limit = .error e) (hnesting : ¬ e.IsNesting) :
    ∃ k, k = e.index (read tokens limit).cursor ∧ k ≤ tokens.length ∧
      (tokens[k]? = some e.token ∨ k = tokens.length ∧ e.token.content = .endOfInput) ∧
      (∃ more limit' p, parse (tokens.take k ++ more) limit' = .ok p) ∧
      (k < tokens.length → ∀ more limit' p, parse (tokens.take (k + 1) ++ more) limit' ≠ .ok p) ∧
      (k = tokens.length → ∀ limit' p, parse tokens limit' ≠ .ok p) := by
  have hstuck := (parse_stuck h).resolve_left hnesting
  obtain ⟨front, words, more, hindex, htoken, hspells, hmore⟩ := hstuck
  obtain ⟨hle, rfl, hfront⟩ := hspells.take
  rw [hindex] at hle hfront hmore
  rw [← htoken] at hfront
  refine ⟨_, rfl, hle, hfront, ?_, fun hlt more limit' p => ?_, fun _ limit' p => ?_⟩
  · refine ⟨more.map Token.ofContent, IsProgram.exists_parse ?_⟩
    rw [List.map_append, List.map_map]
    have hcontent : more.map (Token.content ∘ Token.ofContent) = more := List.map_id more
    rwa [hcontent]
  · refine parse_ne_ok_of_take h hnesting ?_ limit' p
    rw [List.take_append_of_le_length (by rw [List.length_take]; omega), List.take_take, Nat.min_self]
  · exact parse_ne_ok_of_take h hnesting rfl limit' p

/-- In `x )` the closing parenthesis is blamed: some program begins with `x`, none with `x )`. -/
theorem mistake_at_closing_parenthesis :
    let tokens := [Token.ofContent (.identifier "x"), Token.ofContent (mark .rightParen)]
    (parse tokens = .error ⟨.expected (.kind (.punctuation .semicolon)) "after top-level expression",
      Token.ofContent (mark .rightParen)⟩) ∧
    ∃ k, k = 1 ∧ (∃ more limit p, parse (tokens.take k ++ more) limit = .ok p) ∧
      ∀ more limit p, parse (tokens.take (k + 1) ++ more) limit ≠ .ok p := by
  have herror : parse [Token.ofContent (.identifier "x"), Token.ofContent (mark .rightParen)] =
      .error ⟨.expected (.kind (.punctuation .semicolon)) "after top-level expression",
        Token.ofContent (mark .rightParen)⟩ := rfl
  obtain ⟨k, hk, _, _, hfront, hblame, _⟩ := mistake_at_first_impossible_token herror
    (by rintro ⟨limit, h⟩; contradiction)
  obtain rfl : k = 1 := hk
  exact ⟨herror, 1, rfl, hfront, hblame (by decide)⟩

end Formulary.Parser
