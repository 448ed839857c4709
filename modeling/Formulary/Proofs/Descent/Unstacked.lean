import Formulary.Proofs.Descent.Widening

/-!
# Reading with and without a stack

Reading on a stack reads what is read without one, or the stack stops it. Where there is enough room
the stack does not stop it: every step of a descent takes the frames of two parts at most, and the
steps are counted by the fuel. A stack of which nothing is taken has always enough room, so the
comparison with it is the comparison with reading without a stack.
-/

namespace Formulary.Parser

open Descent

/-- A reading without a stack as one on a stack. -/
def Reading.onStack (r : Reading) : ReadingOn := ⟨r.statements, r.mistake.map .mistake, r.cursor⟩

theorem Reading.program_onStack (r : Reading) :
    r.onStack.program = r.program.mapError Halt.mistake := by
  unfold ReadingOn.program Reading.program Reading.onStack
  cases r.mistake <;> rfl

/-- The error of the stack that stopped a reading, if one did. -/
def stackError? {α : Type} : Except Halt α → Option Stack.Error
  | .error (.stack e) => some e
  | _ => none

theorem eq_of_stackError? {α : Type} {result : Except Halt α} {e : Stack.Error}
    (h : stackError? result = some e) : result = .error (.stack e) := by
  unfold stackError? at h
  split at h
  · cases h
    rfl
  · cases h

theorem exists_of_toOption_isSome {ε α : Type} {result : Except ε α}
    (h : result.toOption.isSome = true) : ∃ x, result = .ok x := by
  cases result with
  | ok x => exact ⟨x, rfl⟩
  | error e => cases h

/-! ### Enough room -/

section

variable {α : Type} {frames : Frames} {most : Nat} (hframes : ∀ part, frames part ≤ most)

include hframes

/-- With room for the frames of two parts, a part does what it does deeper on the stack. -/
theorem within_of_room {part : Part} {stack : Stack} {p : Stack → Descent α} {q : Descent α}
    (hroom : 2 * most ≤ stack.room)
    (h : ∀ deeper : Stack, stack.room ≤ deeper.room + most → p deeper = q) :
    within frames part stack p = q := by
  have hpart := hframes part
  obtain ⟨deeper, hdeeper, hroom'⟩ := Stack.exists_holding (show frames part ≤ stack.room by omega)
  have hleft : stack.room ≤ deeper.room + most := by omega
  have hsmall (small : Part) : (deeper.holding (frames small)).isSome = true := by
    have hsmall := hframes small
    obtain ⟨_, hholds, _⟩ := Stack.exists_holding (show frames small ≤ deeper.room by omega)
    rw [hholds]
    rfl
  funext c
  simp only [within, hdeeper, h deeper hleft, hsmall, if_true]
  cases q c <;> rfl

/-- With room for the frames of two parts for every unit of fuel, the descents into expressions are
those without a stack. -/
theorem descents_of_room (fuel : Nat) (stack : Stack)
    (hroom : (2 * (fuel + 1) * most : Nat) ≤ stack.room) :
    (∀ nesting, expressionOn frames fuel stack nesting = expressionWithin fuel nesting) ∧
    (∀ nesting, chainOn frames fuel stack nesting = chainWithin fuel nesting) ∧
    (∀ nesting, primaryOn frames fuel stack nesting = primaryWithin fuel nesting) ∧
    (∀ nesting least left,
      operationsOn frames fuel stack nesting least left = operationsWithin fuel nesting least left) ∧
    (∀ nesting, argumentsOn frames fuel stack nesting = argumentsWithin fuel nesting) := by
  induction fuel generalizing stack with
  | zero => exact ⟨fun _ => rfl, fun _ => rfl, fun _ => rfl, fun _ _ _ => rfl, fun _ => rfl⟩
  | succ fuel ih =>
    have hleast : 2 * most ≤ 2 * (fuel + 1) * most := Nat.mul_le_mul_right most (by omega)
    have hsplit : 2 * (fuel + 1 + 1) * most = 2 * (fuel + 1) * most + 2 * most :=
      Nat.add_mul (2 * (fuel + 1)) 2 most
    generalize 2 * (fuel + 1) * most = least at ih hleast hsplit
    rw [hsplit] at hroom
    have htwo : 2 * most ≤ stack.room := by omega
    obtain ⟨expression, chain, primary, operations, arguments⟩ := ih stack (by omega)
    -- A part of a step, and one more under it.
    have hdeep {deeper : Stack} (h : stack.room ≤ deeper.room + most) : 2 * most ≤ deeper.room := by
      omega
    refine ⟨?_, ?_, ?_, ?_, ?_⟩
    · intro nesting
      refine within_of_room hframes htwo fun deeper hdeeper => ?_
      rw [(ih deeper (by omega)).2.1]
      rfl
    · intro nesting
      refine within_of_room hframes htwo fun deeper hdeeper => ?_
      have hoperations (left : Measured) : (within frames .operations deeper fun stack =>
          operationsOn frames fuel stack nesting 0 left) = operationsWithin fuel nesting 0 left :=
        within_of_room hframes (hdeep hdeeper) fun deepest _ =>
          (ih deepest (by omega)).2.2.2.1 nesting 0 left
      simp only [(ih deeper (by omega)).2.2.1, hoperations]
      rfl
    · intro nesting
      refine within_of_room hframes htwo fun deeper hdeeper => ?_
      rw [primaryWithin]
      congr 1
      funext taken
      obtain ⟨first, opening⟩ := taken
      refine within_of_room hframes (hdeep hdeeper) fun deepest _ => ?_
      obtain ⟨expression, chain, _, _, arguments⟩ := ih deepest (by omega)
      cases opening with
      | number value => rfl
      | identifier name => simp only [arguments]
      | group => simp only [funext chain]
      | conditional => simp only [expression]
      | loop => simp only [expression]
    · intro nesting least left
      have htighter (op : Operator) (right : Measured) : (within frames .operations stack fun stack =>
          operationsOn frames fuel stack nesting (op.precedence + 1) right) =
            operationsWithin fuel nesting (op.precedence + 1) right :=
        within_of_room hframes htwo fun deeper _ =>
          (ih deeper (by omega)).2.2.2.1 nesting (op.precedence + 1) right
      simp only [operationsOn, operationsWithin, primary, operations, htighter]
    · intro nesting
      simp only [argumentsOn, argumentsWithin, expression, arguments]

/-- So is a statement. -/
theorem statementOn_of_room (fuel : Nat) (stack : Stack)
    (hroom : (2 * (fuel + 2) * most : Nat) ≤ stack.room) (limit : Int) :
    statementOn frames fuel stack limit = statementWithin fuel limit := by
  have hleast : 2 * most ≤ 2 * (fuel + 1) * most := Nat.mul_le_mul_right most (by omega)
  have hsplit : 2 * (fuel + 2) * most = 2 * (fuel + 1) * most + 2 * most :=
    Nat.add_mul (2 * (fuel + 1)) 2 most
  generalize hroomy : 2 * (fuel + 1) * most = least at hleast hsplit
  rw [hsplit] at hroom
  refine within_of_room hframes (by omega) fun deeper hdeeper => ?_
  have hprototype {deepest : Stack} (hdeepest : deeper.room ≤ deepest.room + most) :
      (within frames .prototype deepest fun _ => prototypeWithin fuel) = prototypeWithin fuel :=
    within_of_room hframes (by omega) fun _ _ => rfl
  have hforeign : foreignOn frames fuel deeper = foreignWithin fuel :=
    within_of_room hframes (by omega) fun deepest hdeepest => by
      simp only [hprototype hdeepest]
      rfl
  have hdefinition : definitionOn frames fuel deeper limit = definitionWithin fuel limit :=
    within_of_room hframes (by omega) fun deepest hdeepest => by
      have hexpression := (descents_of_room hframes fuel deepest (by omega)).1
      simp only [hprototype hdeepest, hexpression]
      rfl
  have hexpression := (descents_of_room hframes fuel deeper (by omega)).1
  simp only [hforeign, hdefinition, hexpression]
  rfl

/-- Statements are then read as without a stack. -/
theorem statementsFromOn_of_room {stack : Stack} (limit : Int) (steps : Nat)
    (before : List Statement) (c : Cursor)
    (hroom : (2 * (4 * c.rest.length + 5) * most : Nat) ≤ stack.room) :
    statementsFromOn frames stack limit steps before c =
      (statementsFrom limit steps before c).onStack := by
  induction steps generalizing before c with
  | zero => rfl
  | succ steps ih =>
    have hstatement := statementOn_of_room hframes (4 * c.rest.length + 3) stack hroom limit
    have hleaves := answers_statementWithin (Nat.le_refl (4 * c.rest.length + 3)) limit c
      (Nat.le_refl _)
    unfold statementsFromOn statementsFrom
    rw [hstatement]
    by_cases hend : c.rest.isEmpty = true
    · rw [if_pos hend, if_pos hend]
      rfl
    · rw [if_neg hend, if_neg hend]
      cases hread : statementWithin (4 * c.rest.length + 3) limit c with
      | success s after =>
        rw [hread] at hleaves
        have hfewer : 2 * (4 * after.rest.length + 5) * most ≤ 2 * (4 * c.rest.length + 5) * most := by
          apply Nat.mul_le_mul_right
          have hlength : after.rest.length + 1 ≤ c.rest.length := hleaves
          omega
        have hfound : statement limit c = (.ok s, after) := (finish_eq_ok _).mpr hread
        simp only [hfound]
        exact ih _ after (by omega)
      | failure e after =>
        have hfound : statement limit c = (.error e, after) := (finish_eq_error _).mpr hread
        simp only [hfound]
        rfl
      | cutShort =>
        rw [hread] at hleaves
        exact hleaves.elim

end

/-- On a stack of which nothing is taken, statements are read as without one. -/
theorem statementsFromOn_none (stack : Stack) (limit : Int) (steps : Nat) (before : List Statement)
    (c : Cursor) : statementsFromOn .none stack limit steps before c =
      (statementsFrom limit steps before c).onStack := by
  have hframes (part : Part) : Frames.none part ≤ 0 := Nat.le_refl 0
  apply statementsFromOn_of_room hframes
  have hfits := stack.fits
  unfold Stack.room
  omega

/-- A stack serves for reading a list: the headroom is granted, and then there is room enough for the
length of the list. -/
def Serves (frames : Frames) (stack : Stack) (tokens : List Token) (limit : Int) : Prop :=
  ∃ most deeper higher, (∀ part, frames part ≤ most) ∧
    stack.holding (frames .use) = some deeper ∧
    deeper.raised (headroom limit) = .ok higher ∧
    (2 * (4 * tokens.length + 5) * most : Nat) ≤ higher.room

section

variable (frames : Frames) (stack : Stack) (tokens : List Token) (limit : Int)

/-- The parser reads what it reads without a stack, or the stack stops it. -/
theorem readOn_agrees : (∃ e, (readOn frames stack tokens limit).halt = some (.stack e)) ∨
    readOn frames stack tokens limit = (read tokens limit).onStack := by
  by_cases granted : Grants frames stack limit
  · obtain ⟨deeper, higher, hdeeper, hhigher⟩ := granted
    have hwider : Wider (fun _ => False) limit limit := ⟨Int.le_refl _, .inl rfl⟩
    have hframes (part : Part) : Frames.none part ≤ frames part := Nat.zero_le _
    have hnone := statementsFromOn_widened hframes hwider (Int.le_refl higher.room)
      (tokens.length + 1) [] (.start tokens)
    rw [statementsFromOn_none] at hnone
    rw [readOn_granted tokens hdeeper hhigher]
    rcases hnone with hcut | ⟨_, _, hfalse⟩ | hsame
    · exact .inl ⟨_, hcut⟩
    · exact hfalse.elim
    · exact .inr hsame.symm
  · exact .inl (readOn_refused tokens granted)

/-- So does what is made of it. -/
theorem parseOn_agrees : (∃ e, parseOn frames stack tokens limit = .error (.stack e)) ∨
    parseOn frames stack tokens limit = (parse tokens limit).mapError .mistake := by
  rcases readOn_agrees frames stack tokens limit with ⟨e, he⟩ | hsame
  · exact .inl ⟨e, by rw [parseOn, ReadingOn.program, he]⟩
  · exact .inr (by rw [parseOn, hsame, Reading.program_onStack]; rfl)

variable {frames stack tokens limit}

/-- What is read on a stack is read without one. -/
theorem parse_of_parseOn {p : Program} (h : parseOn frames stack tokens limit = .ok p) :
    parse tokens limit = .ok p := by
  rcases parseOn_agrees frames stack tokens limit with ⟨e, he⟩ | hsame
  · cases h.symm.trans he
  · rw [hsame] at h
    cases hparse : parse tokens limit with
    | error e =>
      rw [hparse] at h
      cases h
    | ok q =>
      rw [hparse] at h
      rw [Except.ok.inj h]

/-- A stack that serves does not stop the parser. -/
theorem readOn_of_serves (h : Serves frames stack tokens limit) :
    readOn frames stack tokens limit = (read tokens limit).onStack := by
  obtain ⟨most, deeper, higher, hframes, hdeeper, hhigher, hroom⟩ := h
  rw [readOn_granted tokens hdeeper hhigher]
  exact statementsFromOn_of_room hframes limit _ [] (.start tokens) hroom

/-- So it makes of the list what it makes of it without a stack. -/
theorem parseOn_of_serves (h : Serves frames stack tokens limit) :
    parseOn frames stack tokens limit = (parse tokens limit).mapError .mistake := by
  rw [parseOn, readOn_of_serves h, Reading.program_onStack]
  rfl

/-- Where the stack stops it, the stack did not serve. -/
theorem not_serves_of_stack {e : Stack.Error}
    (h : parseOn frames stack tokens limit = .error (.stack e)) :
    ¬ Serves frames stack tokens limit := by
  intro hserves
  rw [parseOn_of_serves hserves] at h
  cases hparse : parse tokens limit with
  | ok q =>
    rw [hparse] at h
    cases h
  | error e' =>
    rw [hparse] at h
    cases h

/-- With its headroom the parser is stopped by the stack only when that runs out. -/
theorem statementsFromOn_exhausted {steps : Nat} {before : List Statement} {c : Cursor}
    {e : Stack.Error} (h : (statementsFromOn frames stack limit steps before c).halt = some (.stack e)) :
    e = .exhausted := by
  induction steps generalizing before c with
  | zero => cases h
  | succ steps ih =>
    unfold statementsFromOn at h
    split at h
    · cases h
    · split at h
      · exact ih h
      · cases h
      · cases h
        rfl

/-- So it is with what it makes of a list. -/
theorem parseOn_exhausted {e : Stack.Error} (granted : Grants frames stack limit)
    (h : parseOn frames stack tokens limit = .error (.stack e)) : e = .exhausted := by
  obtain ⟨deeper, higher, hdeeper, hhigher⟩ := granted
  rw [parseOn, ReadingOn.program, readOn_granted tokens hdeeper hhigher] at h
  split at h
  · next halt hhalt =>
    cases h
    exact statementsFromOn_exhausted hhalt
  · cases h

/-- Within a positive limit the stack stops the parser because it runs out or because the headroom is out
of range. -/
theorem cause_of_stack {e : Stack.Error} (hpositive : 0 < headroom limit)
    (h : parseOn frames stack tokens limit = .error (.stack e)) :
    e = .exhausted ∨ e = .outOfRange ∧ 2147483647 < stack.limit + headroom limit := by
  by_cases granted : Grants frames stack limit
  · exact .inl (parseOn_exhausted granted h)
  · unfold parseOn readOn at h
    cases hdeeper : stack.holding (frames .use) with
    | none =>
      rw [hdeeper] at h
      cases h
      exact .inl rfl
    | some deeper =>
      obtain ⟨_, hlimit, _⟩ := Stack.holding_eq_some_iff.mp hdeeper
      cases hhigher : deeper.raised (headroom limit) with
      | ok higher => exact absurd ⟨deeper, higher, hdeeper, hhigher⟩ granted
      | error why =>
        simp only [hdeeper, hhigher] at h
        cases h
        rw [← hlimit]
        exact .inr (Stack.outOfRange_of_raised hpositive hhigher)

end

end Formulary.Parser

namespace Formulary.Program

open Formulary.Parser

/-- A source text is read as without a stack, or the stack stops the parser. -/
theorem ofSourceOn_agrees (frames : Frames) (stack : Stack) (source filename : String)
    (limit : Int) :
    (∃ tokens e, Lexer.tokenize source filename = .ok tokens ∧
      parseOn frames stack tokens limit = .error (.stack e) ∧
      ofSourceOn frames stack source filename limit = .error (.stack e)) ∨
    ofSourceOn frames stack source filename limit =
      (ofSource source filename limit).mapError .mistake := by
  unfold ofSourceOn ofSource
  cases htokens : Lexer.tokenize source filename with
  | error e => exact .inr rfl
  | ok tokens =>
    simp only
    rcases parseOn_agrees frames stack tokens limit with ⟨e, he⟩ | hsame
    · exact .inl ⟨tokens, e, rfl, he, by rw [he]⟩
    · right
      rw [hsame]
      cases parse tokens limit <;> rfl

/-- A program that was read from a text on a stack is what is read from it without one. -/
theorem ofSource_of_ofSourceOn {frames : Frames} {stack : Stack} {source filename : String}
    {limit : Int} {p : Program} (h : ofSourceOn frames stack source filename limit = .ok p) :
    ofSource source filename limit = .ok p := by
  rcases ofSourceOn_agrees frames stack source filename limit with ⟨_, e, _, _, he⟩ | hsame
  · cases h.symm.trans he
  · rw [hsame] at h
    cases hread : ofSource source filename limit with
    | error e =>
      rw [hread] at h
      cases h
    | ok q =>
      rw [hread] at h
      rw [Except.ok.inj h]

end Formulary.Program
