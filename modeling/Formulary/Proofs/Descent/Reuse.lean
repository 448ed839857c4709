import Formulary.Parser.Session

/-!
# Reading on with one session

A session may be asked for one thing after another, and where a step found a mistake the next one
goes on from there. What an answer depends on is the tokens, the limit and the cursor, but for one
thing. The counts of what is open are back at zero after each step, and the heights that earlier steps
put on record do no harm while their nodes are there. The nodes of a step that found a mistake are
gone, and their heights are still on record when their identities come again. A leaf that takes such
an identity is taken for as high as the node that had it before. So a session answers as one that was
opened where its cursor stands, or it refuses for its nesting what that one may read.
-/

namespace Formulary.Parser

namespace Cursor

/-- The cursor before the token at some index. -/
def before (tokens : List Token) (k : Nat) : Cursor := ⟨(tokens.take k).reverse, tokens.drop k⟩

/-- A cursor is determined by its token list and its index. -/
theorem before_index (c : Cursor) : before c.tokens c.index = c := by
  obtain ⟨consumed, rest⟩ := c
  simp [before, tokens, index, List.take_left', List.drop_left']

/-- A cursor stands in its token list. -/
theorem index_le (c : Cursor) : c.index ≤ c.tokens.length := by
  simp [index, tokens]

end Cursor

/-- The answer that something read is, and the cursor. -/
def Answer.of {α : Type} (value : α → Answer) : Except SyntaxError α × Cursor → Answer × Cursor
  | (.ok a, c) => (value a, c)
  | (.error e, c) => (.failure e, c)

/-- The cause of the mistake that an answer tells of. -/
def Answer.cause? : Answer → Option SyntaxCause
  | .failure e => some e.cause
  | _ => none

theorem Answer.exists_of_cause? {answer : Answer} {cause : SyntaxCause}
    (h : answer.cause? = some cause) : ∃ e, answer = .failure e ∧ e.cause = cause := by
  cases answer with
  | failure e => exact ⟨e, rfl, Option.some.inj h⟩
  | _ => cases h

/-- The expression that an answer holds. -/
def Answer.expression? : Answer → Option Expr
  | .expression e => some e
  | _ => none

theorem Answer.eq_of_expression? {answer : Answer} {e : Expr} (h : answer.expression? = some e) :
    answer = .expression e := by
  cases answer with
  | expression e' => rw [Option.some.inj h]
  | _ => cases h

/-- What is answered to a command, and where the cursor is left, by the tokens, the limit and the
cursor. -/
def answerAt (stack : Stack) (tokens : List Token) (limit : Int) (c : Cursor) :
    Command → Answer × Cursor
  | .program =>
    match stack.raised (headroom limit) with
    | .error e => (.halted e, .start tokens)
    | .ok _ => Answer.of Answer.program ((read tokens limit).program, (read tokens limit).cursor)
  | .foreign => Answer.of Answer.prototype (foreign c)
  | .prototype => Answer.of Answer.prototype (prototype c)
  | .definition => Answer.of Answer.definition (definition limit c)
  | .expression => Answer.of (fun m => .expression m.expr) (expression limit c)

namespace Session

/-- A session as it is opened, in a system that gives out identities in some way. -/
def fresh (tokens : List Token) (limit : Int) (reuse : Reuse) : Session where
  tokens := tokens
  limit := limit
  heights := { reuse }

/-- A session opened before the token at some index. -/
def opened (tokens : List Token) (limit : Int) (reuse : Reuse) (k : Nat) : Session where
  tokens := tokens
  limit := limit
  cursor := .before tokens k
  heights := { reuse }

/-- Carry out steps one after another. -/
def run (stack : Stack) (s : Session) (commands : List Command) : Session :=
  commands.foldl (fun s command => (s.step stack command).2) s

/-- What is seen of a step: the answer, and where the cursor is left. -/
def seen (stack : Stack) (s : Session) (command : Command) : Answer × Cursor :=
  ((s.step stack command).1, (s.step stack command).2.cursor)

/-- The state in which a step begins: only reading a whole program starts over. -/
def origin (s : Session) : Command → State
  | .program => s.restarted
  | _ => s.toState

/-- A step answers with a mistake. -/
def Fails (stack : Stack) (s : Session) (command : Command) : Prop :=
  ∃ e, (s.step stack command).1 = .failure e

/-- A step is refused for its nesting, by a record that is not clean. -/
structure Refused (stack : Stack) (s : Session) (command : Command) : Prop where
  expression : command = .definition ∨ command = .expression
  nesting : ∃ e, (s.step stack command).1 = .failure e ∧ e.IsNesting
  stale : ¬ s.Clean

/-- A session where a step has left it: over the same tokens, with the same limit, with the cursor where
it was or further on, and with a clean record if it was clean and the step did not fail. -/
structure Settled (stack : Stack) (s : Session) (command : Command) (after : Session) : Prop where
  tokens : after.tokens = (s.origin command).tokens
  limit : after.limit = (s.origin command).limit
  reaches : (s.origin command).cursor.Reaches after.cursor
  clean : ¬ s.Fails stack command → (s.origin command).Clean → after.Clean

/-- A step that settles what came to an answer gives that answer, or it is refused. -/
theorem settle_eq (stack : Stack) (s : Session) (command : Command) {α β : Type} {exact : Prop}
    {related : α → β → Prop} {r : Result α} {o : Except SyntaxError β × Cursor}
    (h : r.Answers exact related (s.origin command) o) {f : α → Answer} {g : β → Answer}
    (hvalue : ∀ a b, related a b → f a = g b) (hstep : s.step stack command = settle f r h.closed) :
    (s.seen stack command = Answer.of g o ∨
      ¬ exact ∧ ∃ e, (s.step stack command).1 = .failure e ∧ e.IsNesting) ∧
    s.Settled stack command (s.step stack command).2 := by
  have hfails {e : SyntaxError} (hmistake : (s.step stack command).1 = .failure e)
      {after : State} : ¬ s.Fails stack command → (s.origin command).Clean → after.Clean :=
    fun hnot => absurd ⟨e, hmistake⟩ hnot
  cases h with
  | value hrelated hsettles =>
    refine ⟨.inl ?_, ?_⟩
    · rw [seen, hstep]
      exact congrArg (·, _) (hvalue _ _ hrelated)
    · rw [hstep]
      exact ⟨hsettles.tokens, hsettles.limit, hsettles.reaches, fun _ => hsettles.clean⟩
  | mistake hsettles =>
    refine ⟨.inl ?_, ?_⟩
    · rw [seen, hstep]
      rfl
    · have hmistake := congrArg Prod.fst hstep
      rw [hstep]
      exact ⟨hsettles.tokens, hsettles.limit, hsettles.reaches, hfails hmistake⟩
  | refused hnesting hstale hsettles =>
    have hmistake := congrArg Prod.fst hstep
    refine ⟨.inr ⟨hstale, _, hmistake, hnesting⟩, ?_⟩
    rw [hstep]
    exact ⟨hsettles.tokens, hsettles.limit, hsettles.reaches, hfails hmistake⟩

section

variable (stack : Stack) (s : Session)

/-- A step that reads a whole program answers by the tokens and the limit alone. -/
theorem step_program : s.seen stack .program = answerAt stack s.tokens s.limit s.cursor .program ∧
    s.Settled stack .program (s.step stack .program).2 := by
  cases hraised : stack.raised (headroom s.limit) with
  | error e =>
    have hstep : s.step stack .program = (.halted e, ⟨s.restarted, rfl, rfl⟩) := by
      simp only [step, hraised]
    refine ⟨?_, ?_⟩
    · simp only [seen, hstep, answerAt, hraised]
      rfl
    · rw [hstep]
      exact ⟨rfl, rfl, .refl _, fun _ h => h⟩
  | ok higher =>
    have hstep : s.step stack .program = settle .program
        (Reader.program (s.tokens.length + 1) s.toState)
        (Reader.program_answers s.toState).closed := by
      simp only [step, hraised]
    obtain ⟨hanswer, hsettled⟩ := settle_eq stack s .program
      (Reader.program_answers s.toState) (f := Answer.program) (g := Answer.program)
      (fun _ _ => congrArg Answer.program) hstep
    refine ⟨?_, hsettled⟩
    rw [hanswer.resolve_right fun h => h.1 trivial]
    simp only [answerAt, hraised]

/-- One step: it answers by the tokens, the limit and the cursor, or it is refused. -/
theorem step_eq (command : Command) :
    (s.seen stack command = answerAt stack s.tokens s.limit s.cursor command ∨
      s.Refused stack command) ∧ s.Settled stack command (s.step stack command).2 := by
  cases command with
  | program => exact ⟨.inl (s.step_program stack).1, (s.step_program stack).2⟩
  | foreign =>
    obtain ⟨hanswer, hsettled⟩ := settle_eq stack s .foreign
      (Reader.foreign_answers s.closed) (fun _ _ => congrArg Answer.prototype) rfl
    exact ⟨.inl (hanswer.resolve_right fun h => h.1 trivial), hsettled⟩
  | prototype =>
    obtain ⟨hanswer, hsettled⟩ := settle_eq stack s .prototype
      (Reader.prototype_answers s.closed) (fun _ _ => congrArg Answer.prototype) rfl
    exact ⟨.inl (hanswer.resolve_right fun h => h.1 trivial), hsettled⟩
  | definition =>
    obtain ⟨hanswer, hsettled⟩ := settle_eq stack s .definition
      (Reader.definition_answers s.closed) (fun _ _ => congrArg Answer.definition) rfl
    exact ⟨hanswer.imp_right fun h => ⟨.inl rfl, h.2, h.1⟩, hsettled⟩
  | expression =>
    obtain ⟨hanswer, hsettled⟩ := settle_eq stack s .expression
      (Reader.expression_answers s.closed) (g := fun m => .expression m.expr)
      (fun _ _ => congrArg Answer.expression) rfl
    exact ⟨hanswer.imp_right fun h => ⟨.inr rfl, h.2, h.1⟩, hsettled⟩

end

/-! ### Where the cursor stands -/

/-- A session over given tokens with a given limit, whose cursor is in these tokens. -/
structure Over (s : Session) (tokens : List Token) (limit : Int) : Prop where
  tokens_eq : s.tokens = tokens
  limit_eq : s.limit = limit
  cursor_tokens : s.cursor.tokens = tokens

section

variable {stack : Stack} {s : Session} {tokens : List Token} {limit : Int}

/-- A step stays over the same tokens. -/
theorem Over.step (h : s.Over tokens limit) (command : Command) :
    (s.step stack command).2.Over tokens limit := by
  have hsettled := (s.step_eq stack command).2
  have horigin : (s.origin command).tokens = tokens ∧ (s.origin command).limit = limit ∧
      (s.origin command).cursor.tokens = tokens := by
    cases command with
    | program => exact ⟨h.tokens_eq, h.limit_eq, h.tokens_eq⟩
    | _ => exact ⟨h.tokens_eq, h.limit_eq, h.cursor_tokens⟩
  exact ⟨hsettled.tokens.trans horigin.1, hsettled.limit.trans horigin.2.1,
    hsettled.reaches.tokens.trans horigin.2.2⟩

/-- Any number of steps does. -/
theorem Over.run (h : s.Over tokens limit) (commands : List Command) :
    (s.run stack commands).Over tokens limit := by
  induction commands generalizing s with
  | nil => exact h
  | cons command rest ih => exact ih (h.step command)

/-- The cursor is the one before the token at its index. -/
theorem Over.before_index (h : s.Over tokens limit) : .before tokens s.cursor.index = s.cursor := by
  obtain rfl := h.cursor_tokens
  exact s.cursor.before_index

end

/-- Only reading a whole program moves the cursor back. -/
theorem index_le_step (stack : Stack) (s : Session) {command : Command} (h : command ≠ .program) :
    s.cursor.index ≤ (s.step stack command).2.cursor.index := by
  have hreaches := (s.step_eq stack command).2.reaches
  cases command with
  | program => exact absurd rfl h
  | _ => exact hreaches.index

/-! ### Where the record is clean -/

/-- In the course of some steps one has failed, and no whole program was read since. -/
def FailedSince (stack : Stack) (s : Session) (commands : List Command) : Prop :=
  ∃ before failed after, commands = before ++ failed :: after ∧ .program ∉ after ∧
    (s.run stack before).Fails stack failed

/-- A step that does not fail leaves a clean record clean, and reading a whole program cleans it. -/
theorem clean_step {stack : Stack} {s : Session} {command : Command}
    (hfails : ¬ s.Fails stack command) (h : s.Clean ∨ command = .program) :
    (s.step stack command).2.Clean := by
  refine (s.step_eq stack command).2.clean hfails ?_
  cases command with
  | program => exact s.heights.clean_wiped
  | _ => exact h.resolve_right fun h => nomatch h

/-- Behind any number of steps the record is clean, or one of them has failed and no whole program was
read since. Where it was not clean before them, a whole program was read or it still need not be. -/
theorem clean_run (stack : Stack) (s : Session) (commands : List Command) :
    (s.run stack commands).Clean ∨ s.FailedSince stack commands ∨
      ¬ s.Clean ∧ .program ∉ commands := by
  induction commands generalizing s with
  | nil => exact (Classical.em s.Clean).imp_right fun h => .inr ⟨h, List.not_mem_nil⟩
  | cons command rest ih =>
    rcases ih (s.step stack command).2 with hclean | ⟨before, failed, after, hrest, hnone, hfails⟩ |
      ⟨hstale, hnone⟩
    · exact .inl hclean
    · exact .inr (.inl ⟨command :: before, failed, after, by rw [hrest]; rfl, hnone, hfails⟩)
    · right
      by_cases hfails : s.Fails stack command
      · exact .inl ⟨[], command, rest, rfl, hnone, hfails⟩
      · have hnot : ¬ (s.Clean ∨ command = .program) := fun h => hstale (clean_step hfails h)
        refine .inr ⟨fun h => hnot (.inl h), fun h => ?_⟩
        rcases List.mem_cons.mp h with h | h
        · exact hnot (.inr h.symm)
        · exact hnone h

/-- A session as it is opened has a clean record. -/
theorem clean_fresh (tokens : List Token) (limit : Int) (reuse : Reuse) :
    (fresh tokens limit reuse).Clean := List.forall_mem_nil _

end Session

end Formulary.Parser
