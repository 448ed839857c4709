import Formulary.Proofs.Descent.Finding
import Formulary.Proofs.Descent.Programs

/-!
# Everything that is derived is read

The steps of `Finding`, put together by induction on the fuel: what the grammar derives is read
within any nesting limit that is wide enough for it, and what is read is what was derived. In a token
list the statements are found one after the other.
-/

namespace Formulary.Parser

open Descent

/-- A chain of operators is taken by a descent, in a place where there is room for its tree. -/
def FindsChains (n : Nesting) (chain : Descent Measured) : Prop :=
  ∀ (p : Phrase) words c, 1 ≤ n.expressions → p.Settled →
    ((n.expressions + p.expr.height : Nat) : Int) ≤ n.limit + 1 →
    ((n.groups + p.groups : Nat) : Int) ≤ n.limit → Stops true words →
    c.ahead = p.spell true ++ words →
    (chain c).Ends (fun m after => m.expr.bare = p.expr ∧ after.ahead = words) fun _ _ => False

/-- All descents into expressions with some fuel take what is ahead. -/
structure FindsWithin (fuel : Nat) : Prop where
  expression : ∀ n, FindsPhrases n (expressionWithin fuel n)
  chain : ∀ n, FindsChains n (chainWithin fuel n)
  primary : ∀ n, FindsPrimaries n (primaryWithin fuel n)
  operations : ∀ n least, FindsOperations n least (operationsWithin fuel n least)
  arguments : ∀ n, FindsArguments n (argumentsWithin fuel n)

namespace FindsWithin

/-- Without fuel no wrong thing is found. -/
theorem zero : FindsWithin 0 :=
  ⟨fun _ _ _ _ _ _ _ => trivial, fun _ _ _ _ _ _ _ _ _ _ => trivial,
    fun _ _ _ _ _ _ _ => trivial, fun _ _ _ _ _ _ _ _ _ _ _ _ _ _ _ => trivial,
    fun _ _ _ _ _ _ => trivial⟩

section

variable {fuel : Nat} (within : FindsWithin fuel) (n : Nesting)

include within

/-- With more fuel an expression is found. -/
theorem expression_succ : FindsPhrases n (expressionWithin (fuel + 1) n) := by
  intro p words c hfits hstops h
  have hheight := hfits.height
  have hpos := p.expr.height_pos
  unfold expressionWithin
  rw [if_neg (by omega)]
  refine within.chain { n with expressions := n.expressions + 1 } p words c (Nat.le_add_left _ _)
    hfits.settled ?_ hfits.groups hstops h
  dsimp only
  omega

/-- With more fuel a chain of operators is found. -/
theorem chain_succ : FindsChains n (chainWithin (fuel + 1) n) := by
  intro p words c hinside hsettled hheight hgroups hstops h
  obtain ⟨hopen, hhead, htail⟩ := hsettled.head_tail
  obtain ⟨hgroup, htailgroups⟩ := p.groups_head_tail
  rw [p.expr_eq] at hheight ⊢
  rw [p.spell_head_tail, List.append_assoc] at h
  have hfirst := height_first_le_ofChain p.head.expr p.tail.links
  simp only [chainWithin, ends_bind]
  refine (within.primary n p.head _ c ⟨hhead, hinside, by omega, by omega⟩ (hstops.tail hopen)
    h).mono ?_ fun _ _ h => h.elim
  rintro m b ⟨hm, h⟩
  rw [← hm] at hheight ⊢
  refine (within.operations n 0 m p.tail [] words b hinside (by rwa [List.append_nil]) (by simp)
    (by simp) hheight (fun link hlink => ?_) hstops (by rwa [List.append_nil])).mono
    (fun m' after h => ⟨h.1, by simpa [Tail.spell] using h.2⟩) fun _ _ h => h.elim
  have := htailgroups link hlink
  omega

/-- With more fuel a primary expression is found. -/
theorem primary_succ : FindsPrimaries n (primaryWithin (fuel + 1) n) := by
  intro p words c hfits hstops h
  simp only [primaryWithin, FindsPrimary, ends_bind]
  cases p with
  | number value =>
    apply finds_take h (a := .number value) fun _ ht => opening?_of_content ht
    intro t b h
    simp only [ends_bind, ends_spanFrom, ends_pure]
    exact ⟨rfl, h⟩
  | name name =>
    apply finds_take h (a := .identifier name) fun _ ht => opening?_of_content ht
    intro t b h
    exact variable_finds hstops h
  | emptyCall name =>
    apply finds_take h (a := .identifier name) fun _ ht => opening?_of_content ht
    intro t b h
    exact emptyCall_finds hfits h
  | call name a =>
    apply finds_take h (a := .identifier name) fun _ ht => opening?_of_content ht
    intro t b h
    exact call_finds (within.arguments n) hfits (by simpa using h)
  | group inner =>
    apply finds_take h (a := .group) fun _ ht => opening?_of_content ht
    intro t b h
    refine grouping_finds hfits (fun words c hstops h => ?_) (by simpa using h)
    have hgroups := hfits.groups
    simp only [Primary.groups] at hgroups
    refine within.chain { n with groups := n.groups + 1 } inner words c hfits.inside hfits.settled
      hfits.height ?_ hstops h
    dsimp only
    omega
  | cond p₁ p₂ p₃ =>
    apply finds_take h (a := .conditional) fun _ ht => opening?_of_content ht
    intro t b h
    exact conditional_finds (within.expression n) hfits hstops (by simpa using h)
  | loop counter p₁ p₂ p₃ =>
    apply finds_take h (a := .loop) fun _ ht => opening?_of_content ht
    intro t b h
    exact forLoop_finds (within.expression n) hfits hstops (by simpa using h)
  | steppedLoop counter p₁ p₂ p₃ p₄ =>
    apply finds_take h (a := .loop) fun _ ht => opening?_of_content ht
    intro t b h
    exact steppedLoop_finds (within.expression n) hfits hstops (by simpa using h)

/-- With more fuel operators are found. -/
theorem operations_succ (least : Nat) :
    FindsOperations n least (operationsWithin (fuel + 1) n least) := by
  intro left inner outer words c hinside hsettled hinner houter hheight hgroups hstops h
  unfold operationsWithin
  cases inner with
  | nil =>
    refine finds_otherwise (fun t ht => ?_) ⟨by simp [Tail.links], h⟩
    exact binding?_eq_none houter hstops (h ▸ ht)
  | cons link rest =>
    obtain ⟨op, q⟩ := link
    have hop := hinner (op, q) List.mem_cons_self
    rw [List.cons_append, Tail.spell_cons, List.cons_append, List.append_assoc] at h
    apply finds_takeIf (a := op) h fun t ht => by rw [binding?_of_content ht, if_pos hop]
    intro t b h
    exact operation_finds (within.primary n) (within.operations n _) (within.operations n least)
      hinside hsettled (fun link hlink => hinner link (List.mem_cons_of_mem _ hlink)) hop houter
      hheight hgroups hstops h

/-- With more fuel arguments are found. -/
theorem arguments_succ : FindsArguments n (argumentsWithin (fuel + 1) n) := by
  intro a words c hfits h
  obtain ⟨hsettled, hheight, hgroups⟩ := hfits
  simp only [argumentsWithin, ends_bind, ends_peek]
  cases a with
  | last e =>
    simp only [Arguments.exprs_last, Expr.heights, Arguments.groups] at hheight hgroups
    apply finds_part (within.expression n) ⟨hsettled, by omega, by omega⟩ (stops_mark (by simp) _) h
    intro m b hm h
    rw [if_pos (by rw [Token.kind, b.content_current, h]; rfl)]
    exact ⟨by simp [Expr.bares, hm], h⟩
  | more e rest =>
    simp only [Arguments.exprs_more, Expr.heights, Arguments.groups] at hheight hgroups
    rw [Arguments.spell, List.append_assoc, List.cons_append] at h
    apply finds_part (within.expression n) ⟨hsettled.1, by omega, by omega⟩
      (stops_mark (by simp) _) h
    intro m b hm h
    rw [if_neg (by rw [Token.kind, b.content_current, h]; simp [TokenContent.kind])]
    simp only [ends_bind, ends_pure]
    apply finds_take h (a := ()) fun t ht => ofKind_eq_some (by rw [Token.kind, ht]; rfl)
    intro t b h
    refine (within.arguments n rest words b ⟨hsettled.2, by omega, by omega⟩ h).mono ?_
      fun _ _ h => h.elim
    rintro ms after ⟨hms, h⟩
    refine ⟨?_, h⟩
    simp [Expr.bares, hm, hms]

end

end FindsWithin

/-- All descents into expressions take what is ahead, whatever their fuel. -/
theorem finds_within (fuel : Nat) : FindsWithin fuel := by
  induction fuel with
  | zero => exact .zero
  | succ fuel within =>
    constructor
    · exact within.expression_succ
    · exact within.chain_succ
    · exact within.primary_succ
    · exact within.operations_succ
    · exact within.arguments_succ

/-! ### Statements -/

/-- The nesting limit is wide enough for a clause. -/
structure Clause.Fits (k : Clause) (limit : Int) : Prop where
  settled : k.Settled
  distinct : k.Distinct
  height : ∀ s ∈ k.statement, s.height ≤ limit.toNat
  groups : k.groups ≤ limit.toNat

/-- Parameters are found up to the closing parenthesis. -/
theorem parametersWithin_finds (fuel : Nat) (function : String) (seen : List String)
    (params : List (String × Bool)) (words : List TokenContent) (c : Cursor)
    (hdistinct : (seen ++ params.map Prod.fst).Nodup)
    (h : c.ahead = spellParams params ++ mark .rightParen :: words) :
    (parametersWithin fuel function seen c).Ends
      (fun names after => names = seen ++ params.map Prod.fst ∧
        after.ahead = mark .rightParen :: words) fun _ _ => False := by
  induction fuel generalizing seen params c with
  | zero => trivial
  | succ fuel ih =>
    unfold parametersWithin
    cases params with
    | nil =>
      refine finds_otherwise (fun t ht => ?_) ⟨by simp, h⟩
      rw [h] at ht
      rw [name?, ← Option.some.inj ht]
    | cons param rest =>
      obtain ⟨parameter, comma⟩ := param
      have hnew : parameter ∉ seen := fun hmem =>
        (List.nodup_append.mp hdistinct).2.2 parameter hmem parameter (by simp) rfl
      rw [List.map_cons, List.append_cons] at hdistinct
      rw [List.map_cons, List.append_cons]
      simp only [spellParams, List.flatMap_cons, Signature.spellParam, List.cons_append,
        List.append_assoc] at h
      apply finds_takeIf h (a := parameter) (fun t ht => by rw [name?, ht])
      intro t b h
      rw [if_neg hnew]
      cases comma with
      | true =>
        refine finds_takeIf h (a := ()) (fun t ht => ofKind_eq_some (by rw [Token.kind, ht]; rfl))
          fun _ b h => ?_
        exact ih _ rest b hdistinct h
      | false =>
        refine finds_otherwise (fun t ht => ?_) (ih _ rest b hdistinct h)
        rw [ofKind, if_neg]
        intro hk
        rw [h, content_of_kind_mark hk] at ht
        cases rest <;> simp [Signature.spellParam] at ht

/-- A prototype is found. -/
theorem prototypeWithin_finds (fuel : Nat) (s : Signature) (words : List TokenContent) (c : Cursor)
    (hdistinct : s.names.Nodup) (h : c.ahead = s.spell true ++ words) :
    (prototypeWithin fuel c).Ends
      (fun p after => p.bare = { name := s.name, params := s.names } ∧ after.ahead = words)
      fun _ _ => False := by
  simp only [prototypeWithin, ends_bind]
  rw [Signature.spell_true, List.append_assoc, List.append_assoc] at h
  refine finds_name h fun _ _ h => finds_expect h rfl fun _ _ h => ?_
  refine (parametersWithin_finds fuel s.name [] s.params words _ hdistinct h).mono
    (fun names _ ⟨hnames, h⟩ => ?_) fun _ _ h => h.elim
  apply finds_expect h rfl
  intro _ _ h
  simp only [ends_spanFrom, ends_pure]
  exact ⟨by rw [Prototype.bare, hnames]; rfl, h⟩

/-- The kind of the token at the cursor. -/
theorem Cursor.kind_current {c : Cursor} {w : TokenContent} {words : List TokenContent}
    (h : c.ahead = w :: words) : c.current.kind = w.kind := by
  rw [Token.kind, c.content_current, h]
  rfl

/-- An expression on its own is within a limit that it keeps. -/
theorem Phrase.fits_limit {e : Phrase} {limit : Int} (hheight : e.expr.height ≤ limit.toNat)
    (hsettled : e.Settled) (hgroups : e.groups ≤ limit.toNat) : e.Fits { limit } := by
  have hpos := e.expr.height_pos
  exact ⟨hsettled, by simp only; omega, by simp only; omega⟩

/-- The declaration of an outside function is found. -/
theorem foreignWithin_finds (fuel : Nat) (s : Signature) (words : List TokenContent) (c : Cursor)
    (hdistinct : s.names.Nodup) (h : c.ahead = (Clause.foreign s).spell true ++ words) :
    (foreignWithin fuel c).Ends
      (fun p after => some (Statement.foreign p).bare = (Clause.foreign s).statement ∧
        after.ahead = words) fun _ _ => False := by
  simp only [foreignWithin, ends_bind, ends_pure]
  rw [Clause.spell, List.cons_append, List.append_assoc] at h
  apply finds_expect h rfl
  intro _ b h
  refine (prototypeWithin_finds fuel s _ b hdistinct h).mono ?_ fun _ _ h => h.elim
  rintro p _ ⟨hp, h⟩
  refine finds_expect h rfl fun _ _ h => ⟨?_, h⟩
  rw [Statement.bare, hp, Clause.statement]

/-- A definition is found. -/
theorem definitionWithin_finds (fuel : Nat) (limit : Int) (s : Signature) (body : Phrase)
    (words : List TokenContent) (c : Cursor) (hdistinct : s.names.Nodup)
    (hbody : body.Fits { limit }) (h : c.ahead = (Clause.definition s body).spell true ++ words) :
    (definitionWithin fuel limit c).Ends
      (fun d after => some (Statement.definition d).bare = (Clause.definition s body).statement ∧
        after.ahead = words) fun _ _ => False := by
  simp only [definitionWithin, ends_bind, ends_pure]
  rw [Clause.spell, List.cons_append, List.append_assoc, List.append_assoc] at h
  apply finds_expect h rfl
  intro _ b h
  refine (prototypeWithin_finds fuel s _ b hdistinct h).mono ?_ fun _ _ h => h.elim
  rintro p _ ⟨hp, h⟩
  refine finds_part ((finds_within fuel).expression _) hbody (stops_mark (by simp) _) h
    fun m _ hm h => ?_
  refine finds_expect h rfl fun _ _ h => ⟨?_, h⟩
  rw [Statement.bare, Definition.bare, hp, hm, Clause.statement]

/-- A top-level expression is found. -/
theorem formulaWithin_finds (fuel : Nat) (limit : Int) (e : Phrase) (words : List TokenContent)
    (c : Cursor) (he : e.Fits { limit }) (h : c.ahead = (Clause.formula e).spell true ++ words) :
    ((do
      let e ← expressionWithin fuel { limit }
      let _ ← expect (.punctuation .semicolon) "after top-level expression"
      return some (.expression e.expr) : Descent (Option Statement)) c).Ends
      (fun o after => o.map Statement.bare = (Clause.formula e).statement ∧ after.ahead = words)
      fun _ _ => False := by
  simp only [ends_bind, ends_pure]
  rw [Clause.spell, List.append_assoc] at h
  refine finds_part ((finds_within fuel).expression _) he (stops_mark (by simp) _) h
    fun m _ hm h => ?_
  refine finds_expect h rfl fun _ _ h => ⟨?_, h⟩
  rw [Option.map_some, Statement.bare, hm, Clause.statement]

/-- A statement is found, or an empty one. -/
theorem statementWithin_finds (fuel : Nat) (limit : Int) (k : Clause) (words : List TokenContent)
    (c : Cursor) (hfits : k.Fits limit) (h : c.ahead = k.spell true ++ words) :
    (statementWithin fuel limit c).Ends
      (fun o after => o.map Statement.bare = k.statement ∧ after.ahead = words)
      fun _ _ => False := by
  obtain ⟨hsettled, hdistinct, hheight, hgroups⟩ := hfits
  simp only [statementWithin, ends_bind, ends_peek]
  cases k with
  | foreign s =>
    rw [c.kind_current h]
    exact (ends_bind _ _).mpr (foreignWithin_finds fuel s words c hdistinct h)
  | definition s body =>
    have hbody := Phrase.fits_limit (hheight _ rfl) hsettled hgroups
    rw [c.kind_current h]
    exact (ends_bind _ _).mpr (definitionWithin_finds fuel limit s body words c hdistinct hbody h)
  | formula e =>
    have he := Phrase.fits_limit (hheight _ rfl) hsettled hgroups
    have hfind := formulaWithin_finds fuel limit e words c he h
    rw [Clause.spell, List.append_assoc] at h
    obtain ⟨o, rest, ho⟩ := e.exists_opening ([mark .semicolon] ++ words)
    rw [c.kind_current (h.trans ho)]
    cases o <;> exact hfind
  | empty =>
    rw [c.kind_current h]
    simp only [TokenContent.kind, ends_bind, ends_pure]
    exact finds_expect h rfl fun _ _ h => ⟨rfl, h⟩

/-- A statement is read, or an empty one. -/
theorem statement_finds {limit : Int} {k : Clause} {words : List TokenContent} {c : Cursor}
    (hfits : k.Fits limit) (h : c.ahead = k.spell true ++ words) :
    ∃ o after, statement limit c = (.ok o, after) ∧ o.map Statement.bare = k.statement ∧
      after.ahead = words := by
  have hfinds := statementWithin_finds (4 * c.rest.length + 3) limit k words c hfits h
  have hanswers := @answers_statementWithin _ c.rest.length (Nat.le_refl _) limit
  cases ho : statementWithin (4 * c.rest.length + 3) limit c with
  | success o after =>
    rw [ho] at hfinds
    exact ⟨o, after, (finish_eq_ok _).mpr ho, hfinds⟩
  | failure e after =>
    rw [ho] at hfinds
    exact hfinds.elim
  | cutShort => exact absurd ho (hanswers.ne_cutShort (Nat.le_refl _))

/-- All statements are read. -/
theorem statementsFrom_finds (limit : Int) (steps : Nat) (before : List Statement) (c : Cursor)
    (ks : List Clause) (hsteps : ks.length < steps) (hfits : ∀ k ∈ ks, k.Fits limit)
    (h : c.ahead = spellAll true ks) :
    ∃ ss after, statementsFrom limit steps before c = ⟨before.reverse ++ ss, none, after⟩ ∧
      ss.map Statement.bare = ks.filterMap Clause.statement := by
  induction ks generalizing steps before c with
  | nil =>
    have hrest : c.rest = [] := List.map_eq_nil_iff.mp h
    obtain ⟨steps, rfl⟩ := Nat.exists_eq_add_one_of_ne_zero (Nat.ne_zero_of_lt hsteps)
    exact ⟨[], c, by simp [statementsFrom, hrest], rfl⟩
  | cons k ks ih =>
    obtain ⟨steps, rfl⟩ := Nat.exists_eq_add_one_of_ne_zero (Nat.ne_zero_of_lt hsteps)
    rw [List.length_cons] at hsteps
    obtain ⟨hk, hks⟩ := List.forall_mem_cons.mp hfits
    rw [spellAll, List.flatMap_cons] at h
    obtain ⟨o, after, hstatement, ho, hafter⟩ := statement_finds hk h
    obtain ⟨ss, last, hss, hbare⟩ := ih steps (o.toList ++ before) after (by omega) hks hafter
    have hrest : c.rest ≠ [] :=
      List.ne_nil_of_length_pos (Nat.lt_of_le_of_lt (Nat.zero_le _) (statement_shortens hstatement))
    refine ⟨o.toList ++ ss, last, ?_, ?_⟩
    · rw [statementsFrom, if_neg (by simpa using hrest), hstatement]
      simp only
      rw [hss]
      cases o <;> simp
    · rw [List.map_append, hbare, List.filterMap_cons, ← ho]
      cases o <;> simp

/-- A token list that the grammar derives is read as the statements that it says, within any limit
that is wide enough. -/
theorem parse_finds {tokens : List Token} {limit : Int} {ks : List Clause}
    (h : spellAll true ks = tokens.map Token.content) (hfits : ∀ k ∈ ks, k.Fits limit) :
    ∃ ss, parse tokens limit = .ok (Program.ofStatements ss).close ∧
      ss.map Statement.bare = ks.filterMap Clause.statement := by
  have hlength : ks.length ≤ tokens.length := by
    rw [← List.length_map (f := Token.content), ← h]
    exact length_le_spellAll ks
  obtain ⟨ss, after, hss, hbare⟩ := statementsFrom_finds limit (tokens.length + 1) []
    (.start tokens) ks (Nat.lt_succ_of_le hlength) hfits h.symm
  refine ⟨ss, ?_, hbare⟩
  rw [parse, read, hss]
  rfl

end Formulary.Parser
