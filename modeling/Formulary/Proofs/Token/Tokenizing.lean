import Formulary.Proofs.Token.Segments

/-!
# Tokens and their places

The tokens of a text are its lexemes, each at the place that the text before it leads to. A text has at
most one factorisation into gaps and lexemes; if it has none, then the gaps and lexemes lead up to the
first mistake, and tokenizing ends with that. The main argument walks along the segments of a text: one
segment is one step of the lexer (`next_segment`), so well-cut segments are read as their tokens
(`Cut.readAll`), and behind them there is either nothing or a mistake (`exists_fits`).
-/

namespace Formulary

/-- The place behind a piece of text: one line for each line feed, and one column for each character
behind the last of them. -/
def Location.behind (filename : String) (text : List Char) : Location where
  filename := filename
  line := 1 + text.count '\n'
  column := 1 + (text.reverse.takeWhile (· != '\n')).length
  offset := text.length

/-- The column counts the characters of the last line. -/
theorem Position.column_after (text : List Char) :
    (({} : Position).after text).column = 1 + (text.reverse.takeWhile (· != '\n')).length := by
  induction text using List.reverseRecOn with
  | nil => rfl
  | append_singleton text c ih =>
    rw [after_append, after_cons, after_nil, List.reverse_concat, next]
    by_cases hline : c = '\n'
    · rw [if_pos hline, List.takeWhile_cons_of_neg (by simp [hline])]
      rfl
    · have hother : (c != '\n') = true := bne_iff_ne.mpr hline
      rw [if_neg hline, List.takeWhile_cons, hother, if_pos rfl, List.length_cons]
      simp only [ih]
      rfl

/-- Positions are counted as places are. -/
theorem Position.locate_after (filename : String) (text : List Char) :
    (({} : Position).after text).locate filename = .behind filename text := by
  rw [locate, line_after, offset_after, column_after, Location.behind, Nat.zero_add]

namespace Lexer

/-- A lexeme with its content and the gap before it. -/
structure Segment where
  gap : List Char
  lexeme : List Char
  content : TokenContent

namespace Segment

/-- The text of segments with more text behind them. -/
def join : List Segment → List Char → List Char
  | [], rest => rest
  | s :: more, rest => s.gap ++ (s.lexeme ++ join more rest)

/-- The tokens of segments with some text before them. -/
def tokens (filename : String) : List Char → List Segment → List Token
  | _, [] => []
  | before, s :: more =>
    ⟨s.content, String.ofList s.lexeme, Location.behind filename (before ++ s.gap)⟩ ::
      tokens filename (before ++ (s.gap ++ s.lexeme)) more

/-- Segments are cut well in front of a text: their gaps are gaps, and their lexemes are lexemes. -/
inductive Cut (rest : List Char) : List Segment → Prop where
  | nil : Cut rest []
  | cons {s : Segment} {more : List Segment} (gap : Gap s.gap (s.lexeme ++ join more rest))
    (lexeme : Lexeme s.lexeme (join more rest) s.content) (others : Cut rest more) :
    Cut rest (s :: more)

/-- Text behind segments is behind their text. -/
theorem join_append (segments : List Segment) (a b : List Char) :
    join segments (a ++ b) = join segments a ++ b := by
  induction segments with
  | nil => rfl
  | cons s more ih => simp only [join, ih, List.append_assoc]

end Segment

open Segment

/-- A factorisation: segments, and a last gap. -/
structure Factorisation where
  segments : List Segment
  gap : List Char

namespace Factorisation

/-- The text that is factorised. -/
def text (f : Factorisation) : List Char := join f.segments f.gap

/-- The tokens of a factorisation. -/
def tokens (filename : String) (f : Factorisation) : List Token :=
  Segment.tokens filename [] f.segments

/-- A factorisation of a text up to what is left of it. -/
structure Fits (f : Factorisation) (source rest : List Char) : Prop where
  joined : join f.segments (f.gap ++ rest) = source
  cut : Cut (f.gap ++ rest) f.segments
  last : Gap f.gap rest

end Factorisation

/-! ### Single steps -/

section

variable {gap lexeme rest : List Char} {content : TokenContent}

/-- One segment is one token. -/
theorem next_segment (hgap : Gap gap (lexeme ++ rest)) (hlexeme : Lexeme lexeme rest content)
    (filename : String) (p : Position) : next filename ⟨gap ++ (lexeme ++ rest), p⟩ =
      .token ⟨content, String.ofList lexeme, (p.after gap).locate filename⟩
        ⟨rest, (p.after gap).after lexeme⟩ := by
  obtain ⟨c, tail, rfl, hc, hread⟩ := hlexeme.readToken
  have hends : EndsGap (c :: tail ++ rest) := by
    intro d hd
    rwa [← Option.some.inj hd]
  unfold next
  rw [hgap.skipGap_append hends]
  exact hread filename _

/-- Behind a last gap nothing is read. -/
theorem next_last (hgap : Gap gap []) (filename : String) (p : Position) :
    next filename ⟨gap, p⟩ = .done ⟨[], p.after gap⟩ := by
  have hskip := hgap.skipGap_append (fun _ hc => nomatch hc) p
  rw [List.append_nil] at hskip
  unfold next
  rw [hskip]

/-- Behind a gap a mistake is found. -/
theorem next_mistake {wrong : List Char} {e : LexicalError} {filename : String} {p : Position}
    (hgap : Gap gap wrong) (h : Mistake ((p.after gap).locate filename) wrong e) :
    ∃ after, next filename ⟨gap ++ wrong, p⟩ = .failure e after := by
  obtain ⟨c, tail, rfl, hc, after, hread⟩ := h.readToken
  have hends : EndsGap (c :: tail) := by
    intro d hd
    rwa [← Option.some.inj hd]
  refine ⟨after, ?_⟩
  unfold next
  rw [hgap.skipGap_append hends]
  exact hread

/-- A lexeme takes a character at least. -/
theorem Lexeme.length_pos (h : Lexeme lexeme rest content) : 0 < lexeme.length := by
  obtain ⟨c, tail, rfl, _⟩ := h.readToken
  exact Nat.succ_pos _

end

/-! ### Whole texts -/

/-- There are no more segments than characters. -/
theorem Segment.Cut.length_le {rest : List Char} {segments : List Segment} (h : Cut rest segments) :
    segments.length ≤ (join segments rest).length := by
  induction h with
  | nil => exact Nat.zero_le _
  | cons _ lexeme _ ih =>
    have hpos := lexeme.length_pos
    simp only [join, List.length_cons, List.length_append]
    omega

/-- Segments are read as their tokens. -/
theorem Segment.Cut.readAll {rest : List Char} {segments : List Segment} (h : Cut rest segments)
    (filename : String) (steps : Nat) (read : List Token) (before : List Char) :
    readAll filename (segments.length + steps) read
        ⟨join segments rest, ({} : Position).after before⟩ =
      readAll filename steps ((tokens filename before segments).reverse ++ read)
        ⟨rest, ({} : Position).after (before ++ join segments [])⟩ := by
  induction h generalizing read before with
  | nil => simp only [List.length_nil, Nat.zero_add, join, tokens, List.reverse_nil, List.nil_append,
      List.append_nil]
  | @cons s more gap lexeme _ ih =>
    have hsteps : (s :: more).length + steps = more.length + steps + 1 := by
      rw [List.length_cons]
      omega
    have hbefore : before ++ join (s :: more) [] = before ++ (s.gap ++ s.lexeme) ++ join more [] := by
      simp only [join, List.append_assoc]
    rw [hsteps, Lexer.readAll, join, next_segment gap lexeme]
    simp only [← Position.after_append, List.append_assoc] at ih ⊢
    rw [ih, Position.locate_after, hbefore]
    simp only [tokens, List.reverse_cons, List.append_assoc, List.singleton_append]

/-- Every text has a factorisation up to its end or up to a mistake. -/
theorem exists_fits (text : List Char) : ∃ (f : Factorisation) (rest : List Char),
    f.Fits text rest ∧ (rest = [] ∨ ∀ place, ∃ e, Mistake place rest e) := by
  induction hlength : text.length using Nat.strong_induction_on generalizing text with
  | _ n ih =>
    obtain ⟨gap, behind, rfl, hgap, hends⟩ := (exists_gap text).1
    have hlast (h : behind = [] ∨ ∀ place, ∃ e, Mistake place behind e) :
        ∃ (f : Factorisation) (rest : List Char), f.Fits (gap ++ behind) rest ∧
          (rest = [] ∨ ∀ place, ∃ e, Mistake place rest e) :=
      ⟨⟨[], gap⟩, behind, ⟨rfl, .nil, hgap⟩, h⟩
    cases behind with
    | nil => exact hlast (.inl rfl)
    | cons c tail =>
      by_cases hlexeme : ∃ lexeme rest content, c :: tail = lexeme ++ rest ∧ Lexeme lexeme rest content
      · obtain ⟨lexeme, rest, content, htext, hlexeme⟩ := hlexeme
        have hshorter : rest.length < n := by
          have hpos := hlexeme.length_pos
          rw [← hlength, htext, List.length_append, List.length_append]
          omega
        obtain ⟨f, last, hfits, hlast⟩ := ih _ hshorter rest rfl
        rw [htext] at hgap ⊢
        refine ⟨⟨⟨gap, lexeme, content⟩ :: f.segments, f.gap⟩, last, ⟨?_, ?_, hfits.last⟩, hlast⟩
        · rw [join, hfits.joined]
        · refine .cons ?_ ?_ hfits.cut
          · rwa [hfits.joined]
          · rwa [hfits.joined]
      · refine hlast (.inr fun place => ?_)
        exact (lexeme_or_mistake hends place).resolve_left hlexeme

/-- A text is cut into segments and a last gap in one way only. -/
theorem Segment.Cut.unique {gap gap' : List Char} {segments segments' : List Segment}
    (hcut : Cut gap segments) (hcut' : Cut gap' segments') (hgap : Gap gap []) (hgap' : Gap gap' [])
    (hjoin : join segments gap = join segments' gap') : segments = segments' ∧ gap = gap' := by
  induction hcut generalizing segments' with
  | nil =>
    cases hcut' with
    | nil => exact ⟨rfl, hjoin⟩
    | cons hfirst hlexeme _ =>
      have hdone := next_last hgap "" {}
      simp only [join] at hjoin
      rw [hjoin, next_segment hfirst hlexeme] at hdone
      contradiction
  | @cons s more hfirst hlexeme _ ih =>
    cases hcut' with
    | nil =>
      have hdone := next_last hgap' "" {}
      simp only [join] at hjoin
      rw [← hjoin, next_segment hfirst hlexeme] at hdone
      contradiction
    | @cons s' more' hfirst' hlexeme' hmore' =>
      -- Both readings are the first token of the same text.
      have hnext := next_segment hfirst hlexeme "" {}
      simp only [join] at hjoin
      rw [hjoin, next_segment hfirst' hlexeme'] at hnext
      obtain ⟨⟨hcontent, hspelling, _⟩, hrest, _⟩ := by simpa using hnext
      obtain ⟨rfl, rfl⟩ := ih hmore' hrest.symm
      have hlexemes : s.lexeme = s'.lexeme := String.ofList_injective hspelling.symm
      rw [hlexemes] at hjoin
      have hgaps := List.append_cancel_right hjoin
      have hsame : s = s' := by
        cases s
        cases s'
        simp_all
      rw [hsame]
      exact ⟨rfl, rfl⟩

/-- The tokens of a factorisation are read on the way to what is left of the text. -/
theorem Factorisation.Fits.readAll {f : Factorisation} {text rest : List Char}
    (h : f.Fits text rest) (filename : String) : ∃ steps,
      readAll filename (text.length + 1) [] { rest := text } =
        readAll filename (steps + 1) (f.tokens filename).reverse
          ⟨f.gap ++ rest, ({} : Position).after (join f.segments [])⟩ := by
  have hlength := h.cut.length_le
  rw [h.joined] at hlength
  refine ⟨text.length - f.segments.length, ?_⟩
  have hsteps : text.length + 1 = f.segments.length + (text.length - f.segments.length + 1) := by
    omega
  have hread := h.cut.readAll filename (text.length - f.segments.length + 1) [] []
  rw [h.joined, ← hsteps, List.append_nil] at hread
  exact hread

/-- A text that is factorised has the tokens of its factorisation. -/
theorem Factorisation.Fits.tokenize {f : Factorisation} {source : String}
    (h : f.Fits source.toList []) (filename : String) :
    tokenize source filename = .ok (f.tokens filename) := by
  obtain ⟨steps, hread⟩ := h.readAll filename
  have hlast := next_last h.last filename (({} : Position).after (join f.segments []))
  unfold Lexer.tokenize tokensFrom
  rw [hread, List.append_nil, Lexer.readAll, hlast]
  simp only [List.reverse_reverse]

/-- A text that is factorised up to a mistake is refused with the mistake. -/
theorem Factorisation.Fits.tokenize_mistake {f : Factorisation} {source filename : String}
    {rest : List Char} {e : LexicalError} (h : f.Fits source.toList rest)
    (hmistake : Mistake (.behind filename f.text) rest e) :
    Lexer.tokenize source filename = .error e := by
  obtain ⟨steps, hread⟩ := h.readAll filename
  have htext : f.text = join f.segments [] ++ f.gap := by
    rw [← join_append, List.nil_append, Factorisation.text]
  rw [htext, ← Position.locate_after, Position.after_append] at hmistake
  obtain ⟨after, hnext⟩ := next_mistake h.last hmistake
  unfold Lexer.tokenize tokensFrom
  rw [hread, Lexer.readAll, hnext]

/-- A text is factorised and has the tokens of its factorisation, or it is factorised up to a mistake
and refused with that. -/
theorem tokenize_cases (source filename : String) :
    (∃ f : Factorisation, f.Fits source.toList [] ∧ tokenize source filename = .ok (f.tokens filename)) ∨
      ∃ (f : Factorisation) (rest : List Char) (e : LexicalError), f.Fits source.toList rest ∧
        Mistake (.behind filename f.text) rest e ∧ tokenize source filename = .error e := by
  obtain ⟨f, rest, hfits, hend⟩ := exists_fits source.toList
  rcases hend with rfl | hmistake
  · exact .inl ⟨f, hfits, hfits.tokenize filename⟩
  · obtain ⟨e, he⟩ := hmistake (.behind filename f.text)
    exact .inr ⟨f, rest, e, hfits, he, hfits.tokenize_mistake he⟩

/-- Tokenizing accepts the lexical grammar and nothing else, and places every token. It succeeds
exactly when the text has a factorisation into gaps and lexemes, and gives the lexemes of that
factorisation in order, each with its content, its spelling and its place; and a text has at most one
factorisation. It fails exactly when gaps and lexemes lead up to a mistake, with that mistake at its
place: a character that begins nothing, or the start of a run that begins with a digit and spells no
finite number. -/
theorem tokenize_exact (source filename : String) :
    (∀ ts, tokenize source filename = .ok ts ↔
      ∃ f : Factorisation, f.Fits source.toList [] ∧ f.tokens filename = ts) ∧
    (∀ f f' : Factorisation, f.Fits source.toList [] → f'.Fits source.toList [] → f = f') ∧
    ∀ e, tokenize source filename = .error e ↔
      ∃ (f : Factorisation) (rest : List Char), f.Fits source.toList rest ∧
        Mistake (.behind filename f.text) rest e := by
  obtain ⟨f, rest, hfits, hend⟩ := exists_fits source.toList
  refine ⟨fun ts => ?_, ?_, fun e => ?_⟩
  · constructor
    · intro hok
      rcases hend with rfl | hmistake
      · rw [hfits.tokenize filename] at hok
        exact ⟨f, hfits, Except.ok.inj hok⟩
      · obtain ⟨e, he⟩ := hmistake (.behind filename f.text)
        rw [hfits.tokenize_mistake he] at hok
        contradiction
    · rintro ⟨f, hfits, rfl⟩
      exact hfits.tokenize filename
  · rintro ⟨segments, gap⟩ ⟨segments', gap'⟩ ⟨hjoin, hcut, hlast⟩ ⟨hjoin', hcut', hlast'⟩
    simp only [List.append_nil] at hjoin hcut hjoin' hcut'
    obtain ⟨rfl, rfl⟩ := hcut.unique hcut' hlast hlast' (hjoin.trans hjoin'.symm)
    rfl
  · constructor
    · intro herror
      rcases hend with rfl | hmistake
      · rw [hfits.tokenize filename] at herror
        contradiction
      · obtain ⟨e', he'⟩ := hmistake (.behind filename f.text)
        rw [hfits.tokenize_mistake he'] at herror
        obtain rfl := Except.error.inj herror
        exact ⟨f, rest, hfits, he'⟩
    · rintro ⟨f, rest, hfits, hmistake⟩
      exact hfits.tokenize_mistake hmistake

end Lexer

end Formulary
