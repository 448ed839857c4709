import Formulary.Proofs.Descent.Passage
import Formulary.Proofs.Source.Meaning
import Formulary.Proofs.Token.Lines

/-!
# One program below another

Where the text of a program is put below the text of another, both are read as before: the program
of both has the statements of the upper one and then those of the lower one, and a mistake in the
lower text is the mistake that is found there. Only the places of the lower text are moved down.

The reader carries nothing over from one statement to the next but its place. So on the tokens of
both texts it passes the statements of the upper one (`Passes.extend`), and then it goes side by side
with a reader of the lower text alone (`Comes.beside`).
-/

namespace Formulary

open Formulary.Parser

/-- A span further down. -/
def Span.moved (d : Shift) (s : Span) : Span := ⟨s.first.moved d, s.last.moved d⟩

/-- The view in which all spans are further down. -/
def View.moved (d : Shift) : View := Option.map (Span.moved d)

/-- A syntax error further down. -/
def SyntaxError.moved (d : Shift) (e : SyntaxError) : SyntaxError :=
  { e with token := e.token.moved d }

/-- A mistake further down. -/
def SourceError.moved (d : Shift) : SourceError → SourceError
  | lexical e => lexical (e.moved d)
  | grammatical e => grammatical (e.moved d)

namespace Statement

/-- The prototype that a statement declares, if it declares one. -/
def prototype? : Statement → Option Prototype
  | .foreign q => some q
  | .definition d => some d.prototype
  | .expression _ => none

/-- A statement that declares a name declares a prototype. -/
theorem exists_prototype {name : String} {s : Statement} (h : s.declares name = true) :
    ∃ q, s.prototype? = some q := by
  cases s with
  | foreign q => exact ⟨q, rfl⟩
  | definition d => exact ⟨d.prototype, rfl⟩
  | expression e => contradiction

/-- Seen through a view, a statement declares its prototype seen through the view. -/
theorem prototype?_through (v : View) (s : Statement) :
    (s.through v).prototype? = s.prototype?.map (Prototype.through v) := by
  cases s <;> rfl

/-- Through every view a statement declares the same name. -/
theorem declares_through (v : View) (name : String) (s : Statement) :
    (s.through v).declares name = s.declares name := by
  cases s <;> rfl

end Statement

namespace Program

/-- A program `r` has the statements of `p` and then those of `q`, which are seen through a view; its
table of signatures is that of `p` with the entries of `q` made in it. -/
structure Joins (v : View) (p q r : Program) : Prop where
  externs : r.externs = p.externs ++ q.externs.map (Prototype.through v)
  definitions : r.definitions = p.definitions ++ q.definitions.map (Definition.through v)
  expressions : r.expressions = p.expressions ++ q.expressions.map (Expr.through v)
  /-- A name has the signature of `q`, or that of `p` if `q` does not declare it. -/
  prototype : ∀ name,
    r.prototype? name = ((q.prototype? name).map (Prototype.through v)).or (p.prototype? name)
  /-- New names stand behind those that `p` declares. -/
  names : r.declarations.names =
    p.declarations.names ++ q.declarations.names.filter (· ∉ p.declarations.names)

/-! ### Statements and others behind them -/

section

variable (v : View) (ss others : List Statement)

/-- The prototype in force for a name is that of its last declaration. -/
theorem prototype?_ofStatements (name : String) : (ofStatements ss).prototype? name =
    (ss.filter (Statement.declares name)).getLast?.bind Statement.prototype? := by
  have hprototype (d : Declaration) : d.statement.prototype? = some d.prototype := by
    cases d <;> rfl
  rw [← declaration?_ofStatements, prototype?, Option.bind_map, Option.map_eq_bind]
  congr 1
  funext d
  exact (hprototype d).symm

/-- A statement adds its name at the end, unless the name was declared before. -/
theorem names_extend (p : Program) (s : Statement) : (p.extend s).declarations.names =
    p.declarations.names ++
      ((s.prototype?.map Prototype.name).toList).filter (· ∉ p.declarations.names) := by
  have hinsert (name : String) (d : Declaration) : (p.declarations.insert name d).names =
      p.declarations.names ++ [name].filter (· ∉ p.declarations.names) := by
    rw [NameTable.names_insert, List.filter_singleton]
    by_cases hname : name ∈ p.declarations.names <;> simp [hname]
  cases s with
  | foreign q => exact hinsert q.name (.foreign q)
  | definition d => exact hinsert d.name (.definition d p.definitions.length)
  | expression e => exact (List.append_nil _).symm

/-- Statements add their names behind those that were declared before. -/
theorem names_foldl_extend (p : Program) :
    ((others.map (Statement.through v)).foldl extend p).declarations.names =
      p.declarations.names ++
        (ofStatements others).declarations.names.filter (· ∉ p.declarations.names) := by
  induction others using List.reverseRecOn with
  | nil => exact (List.append_nil _).symm
  | append_singleton others s ih =>
    have hname : ((s.through v).prototype?.map Prototype.name) = s.prototype?.map Prototype.name := by
      rw [Statement.prototype?_through, Option.map_map]
      rfl
    rw [List.map_append, List.foldl_append, List.map_singleton, List.foldl_cons, List.foldl_nil,
      names_extend, hname, ih, ofStatements_append, List.foldl_cons, List.foldl_nil, names_extend,
      List.filter_append, List.append_assoc]
    cases s.prototype? with
    | none => rfl
    | some q =>
      by_cases hbefore : q.name ∈ p.declarations.names
      · simp [hbefore]
      · by_cases hothers : q.name ∈ (ofStatements others).declarations.names
        · simp [hbefore, hothers]
        · simp [hbefore, hothers]

/-- The statements of one kind are seen through a view one by one. -/
theorem filterMap_through {α : Type} {part? : Statement → Option α} {through : α → α}
    (hpart : ∀ s : Statement, part? (s.through v) = (part? s).map through) :
    (others.map (Statement.through v)).filterMap part? = (others.filterMap part?).map through := by
  rw [List.filterMap_map, List.map_filterMap]
  congr 1
  exact funext hpart

/-- The prototype in force is that of the last declaration among the others, if there is one. -/
theorem prototype?_append (name : String) :
    (ofStatements (ss ++ others.map (Statement.through v))).prototype? name =
      (((ofStatements others).prototype? name).map (Prototype.through v)).or
        ((ofStatements ss).prototype? name) := by
  have hdeclares : Statement.declares name ∘ Statement.through v = Statement.declares name :=
    funext (Statement.declares_through v name)
  rw [prototype?_ofStatements, prototype?_ofStatements, prototype?_ofStatements, List.filter_append,
    List.filter_map, hdeclares, List.getLast?_append, List.getLast?_map]
  cases hlast : (others.filter (Statement.declares name)).getLast? with
  | none => rfl
  | some s =>
    have hmem := List.mem_of_getLast? hlast
    obtain ⟨q, hq⟩ := Statement.exists_prototype (List.mem_filter.mp hmem).2
    simp only [Option.map_some, Option.some_or, Option.bind_some, Statement.prototype?_through, hq]

/-- A program of statements and others has those of both. -/
theorem joins_ofStatements : Joins v (ofStatements ss).close (ofStatements others).close
    (ofStatements (ss ++ others.map (Statement.through v))).close := by
  constructor
  · rw [close, close, close, externs_ofStatements, externs_ofStatements, externs_ofStatements,
      List.filterMap_append, filterMap_through]
    intro s
    cases s <;> rfl
  · rw [close, close, close, definitions_ofStatements, definitions_ofStatements,
      definitions_ofStatements, List.filterMap_append, filterMap_through]
    intro s
    cases s <;> rfl
  · rw [close, close, close, expressions_ofStatements, expressions_ofStatements,
      expressions_ofStatements, List.filterMap_append, filterMap_through]
    intro s
    cases s <;> rfl
  · exact prototype?_append v ss others
  · rw [close, close, close, ofStatements_append]
    exact names_foldl_extend v others (ofStatements ss)

end

end Program

/-! ### Reading both texts -/

namespace Parser

/-- Tokens correspond to those further down, where some tokens have been passed before. -/
def Correspondence.moved (d : Shift) (before : List Token) : Correspondence where
  token t t' := t' = t.moved d
  left := .moved d
  right := id
  before
  content := by
    rintro t _ rfl
    rfl
  ending := by
    rintro t _ rfl
    rfl
  between := by
    rintro t _ u _ rfl rfl
    cases ht : t.location <;> cases hu : u.location <;> simp [Token.moved, ht, hu] <;> rfl
  join := by
    rintro a _ b _ rfl rfl
    cases a <;> cases b <;> rfl

variable {limit : Int} {ts us : List Token} {p q : Program} {d : Shift}

/-- A program that was parsed was read from statements up to the end. -/
theorem exists_passes (h : parse ts limit = .ok p) : ∃ ss after,
    Passes limit (.start ts) ss after ∧ after.rest = [] ∧ p = (Program.ofStatements ss).close := by
  obtain ⟨ss, o, hcomes⟩ := exists_comes limit (.start ts)
  cases o with
  | some e =>
    rw [hcomes.parse_error] at h
    contradiction
  | none =>
    have hp := hcomes.parse_ok
    rw [h] at hp
    cases hcomes with
    | finished passes ended => exact ⟨ss, _, passes, ended, Except.ok.inj hp⟩

/-- Behind the tokens of a program, others that are moved down are read as before. -/
theorem parse_append (h : parse ts limit = .ok p) (us : List Token) (d : Shift) :
    match parse us limit with
    | .ok q => ∃ r, parse (ts ++ us.map (Token.moved d)) limit = .ok r ∧
        Program.Joins (.moved d) p q r
    | .error e => parse (ts ++ us.map (Token.moved d)) limit = .error (e.moved d) := by
  obtain ⟨ss, mid, passes, ended, rfl⟩ := exists_passes h
  obtain ⟨others, o, hcomes⟩ := exists_comes limit (.start us)
  -- Where the first program ends, the reader stands beside one of the others alone.
  have hbeside : (Correspondence.moved d mid.consumed).Beside (.start us)
      (mid.extend (us.map (Token.moved d))) := by
    refine ⟨⟨[], rfl, .nil⟩, ?_⟩
    rw [Cursor.extend, ended, List.nil_append]
    exact List.forall₂_map_right_iff.mpr (List.forall₂_same.mpr fun _ _ => rfl)
  obtain ⟨others', o', hcomes', hsame, ho⟩ := hcomes.beside hbeside
  have hid : others'.map (Statement.through id) = others' :=
    (List.map_congr_left fun s _ => s.through_id).trans (List.map_id _)
  have hothers : others' = others.map (Statement.through (.moved d)) := (hsame.trans hid).symm
  have hboth : Comes limit (.start (ts ++ us.map (Token.moved d))) (ss ++ others') o' :=
    (passes.extend (us.map (Token.moved d))).comes hcomes'
  rw [hothers] at hboth
  cases ho with
  | none =>
    rw [hcomes.parse_ok]
    exact ⟨_, hboth.parse_ok, Program.joins_ofStatements _ _ _⟩
  | @some e e' he =>
    obtain rfl : e' = e.moved d := by
      obtain ⟨hcause, htoken⟩ := he
      cases e'
      cases hcause
      cases htoken
      rfl
    rw [hcomes.parse_error]
    exact hboth.parse_error

end Parser

namespace Program

variable {source filename : String} {limit : Int} {p : Program}

/-- A text below that of a program is read as before. -/
theorem ofSource_append (h : ofSource source filename limit = .ok p) (lower : String) :
    match ofSource lower filename limit with
    | .ok q => ∃ r, ofSource (source ++ "\n" ++ lower) filename limit = .ok r ∧
        Joins (.moved (.below source.toList)) p q r
    | .error e => ofSource (source ++ "\n" ++ lower) filename limit =
        .error (e.moved (.below source.toList)) := by
  obtain ⟨ts, htokenize, hparse⟩ := ofSource_eq_ok_iff.mp h
  have hboth := Lexer.tokenize_below htokenize lower
  unfold ofSource
  rw [hboth]
  cases Lexer.tokenize lower filename with
  | error e => rfl
  | ok us =>
    have hrest := parse_append hparse us (.below source.toList)
    simp only
    cases hlower : parse us limit with
    | error e =>
      rw [hlower] at hrest
      simp only [hrest]
      rfl
    | ok q =>
      rw [hlower] at hrest
      obtain ⟨r, hr, hjoins⟩ := hrest
      simp only [hr]
      exact ⟨r, rfl, hjoins⟩

/-- Parsing takes one text below another to one program behind another. If a text is read as a
program, then this text and another below it are read as a program just if the other text is. That
program has the statements of both, in order, and for each name the signature of the lower text, or
that of the upper one if the lower one declares none. If the other text is not read, both together
fail with its mistake. In all of this the places of the lower text are moved down by the lines and
the characters of the upper one and of the line feed between them. -/
theorem ofSource_below (h : ofSource source filename limit = .ok p) (lower : String) :
    let d : Shift := .below source.toList
    let both := ofSource (source ++ "\n" ++ lower) filename limit
    ((∃ r, both = .ok r) ↔ ∃ q, ofSource lower filename limit = .ok q) ∧
    (∀ q r, ofSource lower filename limit = .ok q → both = .ok r → Joins (.moved d) p q r) ∧
    ∀ e, ofSource lower filename limit = .error e → both = .error (e.moved d) := by
  intro d both
  have hboth := ofSource_append h lower
  cases hlower : ofSource lower filename limit with
  | ok q =>
    rw [hlower] at hboth
    obtain ⟨r, hr, hjoins⟩ := hboth
    refine ⟨⟨fun _ => ⟨q, rfl⟩, fun _ => ⟨r, hr⟩⟩, ?_, ?_⟩
    · intro q' r' hq' hr'
      obtain rfl := Except.ok.inj hq'
      obtain rfl := Except.ok.inj (hr.symm.trans hr')
      exact hjoins
    · intro e he
      contradiction
  | error e =>
    rw [hlower] at hboth
    refine ⟨?_, ?_, ?_⟩
    · constructor
      · rintro ⟨r, hr⟩
        have hfails := hboth.symm.trans hr
        contradiction
      · rintro ⟨q, hq⟩
        contradiction
    · intro q r hq
      contradiction
    · intro e' he'
      obtain rfl := Except.error.inj he'
      exact hboth

/-- A comment in the last line of a text ends there, and so the line below it is read. -/
theorem ofSource_below_comment :
    ∃ p q r, ofSource "def f(x) x; # f" "f.k" 2 = .ok p ∧
      ofSource "extern f(); f();" "f.k" 2 = .ok q ∧
      ofSource ("def f(x) x; # f" ++ "\n" ++ "extern f(); f();") "f.k" 2 = .ok r ∧
        Joins (.moved ⟨1, 16⟩) p q r := by
  have hp : ∃ p ∈ (ofSource "def f(x) x; # f" "f.k" 2).toOption, True := by decide +kernel
  have hq : ∃ q ∈ (ofSource "extern f(); f();" "f.k" 2).toOption, True := by decide +kernel
  obtain ⟨p, hp, _⟩ := exists_of_toOption hp
  obtain ⟨q, hq, _⟩ := exists_of_toOption hq
  obtain ⟨hiff, hjoins, _⟩ := ofSource_below hp "extern f(); f();"
  obtain ⟨r, hr⟩ := hiff.mpr ⟨q, hq⟩
  exact ⟨p, q, r, hp, hq, hr, hjoins q r hq hr⟩

end Program

end Formulary
