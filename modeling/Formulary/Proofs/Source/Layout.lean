import Formulary.Proofs.Descent.Passage
import Formulary.Proofs.Source.Meaning

/-!
# Layout

What a text means is in the contents of its tokens. Two texts whose token lists are equal, whatever
their gaps, their comments, the spellings of their numbers and the names of their files, are both
refused for the same cause at the same token, or both read as programs that differ in their spans at
most; and these are equal, are printed as the same text, and draw the same errors and warnings, and
their runs come to the same, all but for places.
-/

namespace Formulary

open Formulary.Evaluation Formulary.Parser

/-- Contents that the lexer can read are the same if they are equal. -/
theorem TokenContent.eq_of_beq {a b : TokenContent} (ha : a.IsProper) (hb : b.IsProper)
    (h : (a == b) = true) : a = b := by
  have hbeq : a.beq b = true := h
  cases a with
  | number x =>
    cases b with
    | number y => exact congrArg number (Number.IsLiteral.eq_of_beq ha hb hbeq)
    | _ => contradiction
  | _ => cases b <;> simp_all [beq]

/-- Token lists that the lexer can read have the same contents if they are equal. -/
theorem map_content_eq_of_beq {ts ts' : List Token} (hts : ∀ t ∈ ts, t.content.IsProper)
    (hts' : ∀ t ∈ ts', t.content.IsProper) (h : (ts == ts') = true) :
    ts.map Token.content = ts'.map Token.content := by
  induction ts generalizing ts' with
  | nil =>
    cases ts' with
    | nil => rfl
    | cons t' rest' => contradiction
  | cons t rest ih =>
    cases ts' with
    | nil => contradiction
    | cons t' rest' =>
      obtain ⟨ht, hrest⟩ := List.forall_mem_cons.mp hts
      obtain ⟨ht', hrest'⟩ := List.forall_mem_cons.mp hts'
      have hboth : (t.content == t'.content && rest == rest') = true := h
      obtain ⟨hfirst, hothers⟩ := Bool.and_eq_true_iff.mp hboth
      rw [List.map_cons, List.map_cons, TokenContent.eq_of_beq ht ht' hfirst,
        ih hrest hrest' hothers]

/-! ### Reading the same contents -/

namespace Parser

/-- A token stands at an index in a list; behind the last one stands the end of the input. -/
def TokenAt (tokens : List Token) (index : Nat) (t : Token) : Prop :=
  tokens[index]? = some t ∨ index = tokens.length ∧ t.content = .endOfInput

section

variable {ts ts' : List Token} (h : ts.map Token.content = ts'.map Token.content)

include h

/-- Lists with the same contents have the same length. -/
theorem length_eq_of_sameContents : ts.length = ts'.length := by
  have hlength := congrArg List.length h
  rwa [List.length_map, List.length_map] at hlength

/-- Tokens at the same index in lists with the same contents correspond, and no span is shown. -/
def Correspondence.sameContents : Correspondence where
  token t t' := t.content = t'.content ∧ ∃ index, TokenAt ts index t ∧ TokenAt ts' index t'
  left := .blank
  right := .blank
  before := []
  content hsame := hsame.1
  ending _ :=
    ⟨rfl, ts.length, .inr ⟨rfl, rfl⟩, .inr ⟨length_eq_of_sameContents h, rfl⟩⟩
  between _ _ := rfl
  join _ _ := rfl

/-- At the beginning of lists with the same contents two readers stand side by side. -/
theorem Correspondence.beside_sameContents : (sameContents h).Beside (.start ts) (.start ts') := by
  have htokens : List.Forall₂ (sameContents h).token ts ts' := by
    refine List.forall₂_iff_get.mpr ⟨length_eq_of_sameContents h, fun index hindex hindex' => ?_⟩
    have hcontent : (ts.map Token.content)[index]? = (ts'.map Token.content)[index]? := by rw [h]
    rw [List.getElem?_map, List.getElem?_map, List.getElem?_eq_getElem hindex,
      List.getElem?_eq_getElem hindex'] at hcontent
    refine ⟨Option.some.inj hcontent, index, ?_, ?_⟩
    · exact .inl (List.getElem?_eq_getElem hindex)
    · exact .inl (List.getElem?_eq_getElem hindex')
  exact ⟨⟨[], rfl, .nil⟩, htokens⟩

/-- From lists with the same contents the same statements are read but for their spans, or the same
mistake is found at the same index. -/
theorem parse_sameContents (limit : Int) :
    (∃ e e', parse ts limit = .error e ∧ parse ts' limit = .error e' ∧ e.cause = e'.cause ∧
      ∃ index, TokenAt ts index e.token ∧ TokenAt ts' index e'.token) ∨
    ∃ ss ss', parse ts limit = .ok (Program.ofStatements ss).close ∧
      parse ts' limit = .ok (Program.ofStatements ss').close ∧
        ss.map Statement.bare = ss'.map Statement.bare := by
  obtain ⟨ss, o, hcomes⟩ := exists_comes limit (.start ts)
  obtain ⟨ss', o', hcomes', hsame, ho⟩ := hcomes.beside (Correspondence.beside_sameContents h)
  cases ho with
  | none =>
    have hbare : Statement.through .blank = Statement.bare := funext Statement.through_blank
    rw [← hbare]
    exact .inr ⟨ss, ss', hcomes.parse_ok, hcomes'.parse_ok, hsame⟩
  | some he =>
    obtain ⟨hcause, _, htoken⟩ := he
    exact .inl ⟨_, _, hcomes.parse_error, hcomes'.parse_error, hcause, htoken⟩

end

end Parser

/-! ### Programs that differ in their spans -/

namespace Program

/-- What does not depend on the places of two programs: whether they are equal, what they are printed
as, the errors and warnings that they draw, and what their runs come to. -/
structure SameMeaning (p q : Program) : Prop where
  equal : (p == q) = true
  source : p.source = q.source
  errors : p.resolve.errors.map ResolutionError.bare = q.resolve.errors.map ResolutionError.bare
  warnings : p.resolve.warnings.map ResolutionWarning.bare =
    q.resolve.warnings.map ResolutionWarning.bare
  /-- Added functions may look at anything but the places of faults. -/
  runs : ∀ added, Blind (fun _ => True) added → ∀ callLimit printsResults fuel,
    ((Evaluator.ofProgram p added callLimit printsResults).run p fuel).Alike
      ((Evaluator.ofProgram q added callLimit printsResults).run q fuel)

/-- Programs of the same statements but for their spans are alike. -/
theorem alike_of_bare {ss ss' : List Statement}
    (h : ss.map Statement.bare = ss'.map Statement.bare) :
    (ofStatements ss).close.Alike (ofStatements ss').close := by
  constructor
  · rw [close, close, externs_ofStatements, externs_ofStatements]
    exact map_filterMap_bare (fun s => by cases s <;> rfl) h
  · rw [close, close, definitions_ofStatements, definitions_ofStatements]
    exact map_filterMap_bare (fun s => by cases s <;> rfl) h
  · rw [close, close, expressions_ofStatements, expressions_ofStatements]
    exact map_filterMap_bare (fun s => by cases s <;> rfl) h

/-- They have the same meaning, if they can be printed. -/
theorem sameMeaning_of_statements {ss ss' : List Statement} {limit : Int}
    (h : ss.map Statement.bare = ss'.map Statement.bare)
    (hprintable : (ofStatements ss').close.Printable limit) :
    (ofStatements ss).close.SameMeaning (ofStatements ss').close := by
  have hp := (built_ofStatements ss).close
  have hp' := (built_ofStatements ss').close
  have halike := alike_of_bare h
  have hdeclared (name : String) :
      (ofStatements ss).close.declared name = (ofStatements ss').close.declared name := by
    rw [declared_close_ofStatements, declared_close_ofStatements, h]
  constructor
  · exact halike.beq hprintable
  · exact halike.source_eq
  · have hnames := hp.names_perm hp' fun name => by rw [hdeclared name]
    have harity : ∀ name ∈ (ofStatements ss).close.callees,
        Resolution.SameArity (ofStatements ss).close (ofStatements ss').close name := by
      intro name _
      have hbare := prototype?_of_declared (hdeclared name)
      have hprototype := congrArg (Option.map Prototype.arity) hbare
      rw [Option.map_map, Option.map_map] at hprototype
      exact hprototype.symm
    exact (Resolution.errors_of_same hnames harity halike.definitions halike.expressions).symm
  · exact (Resolution.warnings_of_same halike.externs halike.definitions).symm
  · intro added blind callLimit printsResults fuel
    exact Evaluator.run_alike_of_declared hp hp' hdeclared halike.expressions blind callLimit
      printsResults fuel

/-- Layout never matters. Let two texts have equal token lists, whatever the places of the tokens and
their spellings. Within the same nesting limit both are refused, for the same cause at the token with
the same index, or both are read, as programs with the same meaning. -/
theorem ofSource_of_equal_tokens {source source' filename filename' : String} {ts ts' : List Token}
    (h : Lexer.tokenize source filename = .ok ts) (h' : Lexer.tokenize source' filename' = .ok ts')
    (hequal : (ts == ts') = true) (limit : Int) :
    (∃ e e', ofSource source filename limit = .error (.grammatical e) ∧
      ofSource source' filename' limit = .error (.grammatical e') ∧ e.cause = e'.cause ∧
        ∃ index, TokenAt ts index e.token ∧ TokenAt ts' index e'.token) ∨
    ∃ p p', ofSource source filename limit = .ok p ∧ ofSource source' filename' limit = .ok p' ∧
      p.SameMeaning p' := by
  have hcontents := map_content_eq_of_beq (Lexer.isProper_of_tokenize h)
    (Lexer.isProper_of_tokenize h') hequal
  rcases parse_sameContents hcontents limit with
    ⟨e, e', herror, herror', hcause, htoken⟩ | ⟨ss, ss', hok, hok', hbare⟩
  · refine .inl ⟨e, e', ?_, ?_, hcause, htoken⟩
    · rw [ofSource, h]
      simp only [herror]
    · rw [ofSource, h']
      simp only [herror']
  · have hread := ofSource_eq_ok_iff.mpr ⟨ts, h, hok⟩
    have hread' := ofSource_eq_ok_iff.mpr ⟨ts', h', hok'⟩
    exact .inr ⟨_, _, hread, hread',
      sameMeaning_of_statements hbare (printable_of_ofSource hread')⟩

/-- A program means the same in one line and in several, with a comment and other spellings of its
numbers. -/
theorem ofSource_of_equal_tokens_respelled : ∃ p p',
    ofSource "def f(x) x * 2; f(0.5);" "one.k" 4 = .ok p ∧
      ofSource "def f(x)  # twice\n  x*2.0;\n\nf(0.50);" "many.k" 4 = .ok p' ∧ p.SameMeaning p' := by
  have htokens : ∃ ts ∈ (Lexer.tokenize "def f(x) x * 2; f(0.5);" "one.k").toOption,
      ∃ ts' ∈ (Lexer.tokenize "def f(x)  # twice\n  x*2.0;\n\nf(0.50);" "many.k").toOption,
        (ts == ts') = true := by decide +kernel
  have hread : ∃ p ∈ (ofSource "def f(x) x * 2; f(0.5);" "one.k" 4).toOption, True := by
    decide +kernel
  obtain ⟨ts, hts, htokens⟩ := exists_of_toOption htokens
  obtain ⟨ts', hts', hequal⟩ := exists_of_toOption htokens
  obtain ⟨p, hp, _⟩ := exists_of_toOption hread
  rcases ofSource_of_equal_tokens hts hts' hequal 4 with
    ⟨e, _, herror, _⟩ | ⟨p, p', hread, hread', hmeaning⟩
  · cases hp.symm.trans herror
  · exact ⟨p, p', hread, hread', hmeaning⟩

end Program

end Formulary
