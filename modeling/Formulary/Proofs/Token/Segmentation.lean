import Formulary.Proofs.Token.Tokenizing

/-!
# The segmentation of a text

Read from left to right, every text is cut into pieces with gaps before them: lexemes, and runs that
begin with a digit and spell no finite number, which the lexer passes over as it refuses them. Only a
character that begins nothing cannot be passed over, and there the segmentation stops, or it goes on
to the end of the text. Every text has one segmentation (`Segmentation.exists_of`) and no other
(`Segmentation.Of.unique`); what the lexer does in front of a piece and behind the last one is said by
`next_passable` and `next_stop`.
-/

namespace Formulary.Lexer

/-- A character that begins neither a gap nor a lexeme. -/
structure Stray (c : Char) : Prop where
  blank : Text.isBlank c = false
  comment : c ≠ '#'
  word : isWordStart c = false
  punctuation : ∀ m : Punctuation, m.char ≠ c
  operator : ∀ o : Operator, o.char ≠ c

/-- A text ends or begins with a character that cannot be passed over. -/
inductive Stops : List Char → Prop where
  | done : Stops []
  | stray {c : Char} {rest : List Char} (stray : Stray c) : Stops (c :: rest)

/-- A piece in front of a text that the lexer passes over: a lexeme with its content, or a run that
begins with a digit and means nothing. -/
inductive Passable : List Char → List Char → Option TokenContent → Prop where
  | lexeme {text rest : List Char} {content : TokenContent} (h : Lexeme text rest content) :
    Passable text rest (some content)
  | malformed {word rest : List Char} (run : Run word rest)
    (first : word.head?.any Char.isDigit = true)
    (meaningless : ∀ content, ¬ Means word content) : Passable word rest none

/-- A piece with its content, if it is a lexeme, and the gap before it. -/
structure Piece where
  gap : List Char
  text : List Char
  content : Option TokenContent

namespace Piece

/-- The text of pieces with more text behind them. -/
def join : List Piece → List Char → List Char
  | [], rest => rest
  | q :: more, rest => q.gap ++ (q.text ++ join more rest)

/-- The tokens among pieces with some text before them. -/
def tokens (filename : String) : List Char → List Piece → List Token
  | _, [] => []
  | before, q :: more =>
    (q.content.map fun content =>
      ⟨content, String.ofList q.text, Location.behind filename (before ++ q.gap)⟩).toList ++
        tokens filename (before ++ (q.gap ++ q.text)) more

/-- Pieces are cut well in front of a text: their gaps are gaps, and they can be passed over. -/
inductive Cut (rest : List Char) : List Piece → Prop where
  | nil : Cut rest []
  | cons {q : Piece} {more : List Piece} (gap : Gap q.gap (q.text ++ join more rest))
    (passable : Passable q.text (join more rest) q.content) (others : Cut rest more) :
    Cut rest (q :: more)

/-- Text behind pieces is behind their text. -/
theorem join_append (pieces : List Piece) (a b : List Char) :
    join pieces (a ++ b) = join pieces a ++ b := by
  induction pieces with
  | nil => rfl
  | cons q more ih => simp only [join, ih, List.append_assoc]

/-- The text of pieces in front of others. -/
theorem join_append_pieces (pieces others : List Piece) (rest : List Char) :
    join (pieces ++ others) rest = join pieces (join others rest) := by
  induction pieces with
  | nil => rfl
  | cons q more ih => rw [List.cons_append, join, join, ih]

/-- The text of pieces and one more. -/
theorem join_concat (pieces : List Piece) (q : Piece) :
    join (pieces ++ [q]) [] = join pieces [] ++ (q.gap ++ q.text) := by
  rw [join_append_pieces, ← join_append]
  simp only [join, List.nil_append, List.append_nil]

/-- A piece with others before it is cut well in front of those behind it. -/
theorem Cut.of_append {rest : List Char} {pieces others : List Piece}
    (h : Cut rest (pieces ++ others)) : Cut rest others := by
  induction pieces with
  | nil => exact h
  | cons q more ih =>
    cases h with
    | cons _ _ others => exact ih others

/-- A piece among others gives its token. -/
theorem mem_tokens {q : Piece} {content : TokenContent} (hcontent : q.content = some content)
    (filename : String) (pieces others : List Piece) (before : List Char) :
    ⟨content, String.ofList q.text,
      some (.behind filename (before ++ (join pieces [] ++ q.gap)))⟩ ∈
        tokens filename before (pieces ++ q :: others) := by
  induction pieces generalizing before with
  | nil =>
    rw [List.nil_append, tokens, hcontent]
    exact List.mem_append_left _ List.mem_cons_self
  | cons first more ih =>
    have hmem := ih (before ++ (first.gap ++ first.text))
    simp only [List.append_assoc] at hmem
    simp only [join, List.append_assoc]
    exact List.mem_append_right _ hmem

end Piece

open Piece

/-! ### Single steps -/

/-- A run without a meaning is refused as a number. -/
theorem readWord_of_meaningless {word : List Char} (h : ∀ content, ¬ Means word content)
    (place : Location) : ∃ overflow,
      readWord place word = .error (.invalidNumber (String.ofList word) overflow place) := by
  rcases means_or_not word with ⟨content, hmeans⟩ | ⟨hdigit, hspells | ⟨n, hspells, hlarge⟩⟩
  · exact absurd hmeans (h content)
  · have hread := Numeral.read?_eq_none hspells
    exact ⟨false, by simp only [readWord, hdigit, if_true, hread]⟩
  · have hread := (Numeral.read?_eq_some_iff word n).mpr hspells
    exact ⟨true, by simp only [readWord, hdigit, if_true, hread, hlarge]⟩

/-- What the lexer makes of a piece: a token of a lexeme, and a mistake of any other run. Either way
it goes on behind the piece. -/
def Reading.OfPiece (text : List Char) (place : Location) (after : Cursor) :
    Option TokenContent → Reading → Prop
  | some content, r => r = .token ⟨content, String.ofList text, place⟩ after
  | none, r => ∃ overflow,
    r = .failure (.invalidNumber (String.ofList text) overflow place) after

/-- A piece is read, and begins no gap. -/
theorem Passable.readToken {text rest : List Char} {content : Option TokenContent}
    (h : Passable text rest content) : ∃ c tail, text = c :: tail ∧
      (Text.isBlank c = false ∧ c ≠ '#') ∧ ∀ filename p,
        Reading.OfPiece text (p.locate filename) ⟨rest, p.after text⟩ content
          (Lexer.readToken filename c (tail ++ rest) p) := by
  cases h with
  | lexeme h => exact h.readToken
  | malformed run _ meaningless =>
    obtain ⟨c, tail, rfl, hc⟩ := run.start
    refine ⟨c, tail, rfl, isBlank_of_isWordStart hc, fun filename p => ?_⟩
    obtain ⟨overflow, hread⟩ := readWord_of_meaningless meaningless (p.locate filename)
    obtain ⟨htake, hdrop⟩ := run.span
    rw [List.cons_append] at htake hdrop
    exact ⟨overflow, by simp only [Lexer.readToken, hc, if_true, htake, hdrop, hread]⟩

/-- A piece takes a character at least. -/
theorem Passable.length_pos {text rest : List Char} {content : Option TokenContent}
    (h : Passable text rest content) : 0 < text.length := by
  obtain ⟨c, tail, rfl, _⟩ := h.readToken
  exact Nat.succ_pos _

/-- Behind a gap a piece is read. -/
theorem next_passable {gap text rest : List Char} {content : Option TokenContent}
    (hgap : Gap gap (text ++ rest)) (h : Passable text rest content) (filename : String)
    (p : Position) : Reading.OfPiece text ((p.after gap).locate filename)
      ⟨rest, (p.after gap).after text⟩ content (next filename ⟨gap ++ (text ++ rest), p⟩) := by
  obtain ⟨c, tail, rfl, hc, hread⟩ := h.readToken
  have hends : EndsGap (c :: tail ++ rest) := by
    intro d hd
    rwa [← Option.some.inj hd]
  unfold next
  rw [hgap.skipGap_append hends]
  exact hread filename _

/-- What the lexer comes to where a segmentation stops: the end of the text, or a mistake at a
character that it does not pass over. -/
def Reading.OfStop (filename : String) (p : Position) : List Char → Reading → Prop
  | [], r => r = .done ⟨[], p⟩
  | c :: rest, r => r = .failure (.invalidCharacter c (p.locate filename)) ⟨c :: rest, p⟩

/-- No gap begins where a segmentation stops. -/
theorem Stops.endsGap {rest : List Char} (h : Stops rest) : EndsGap rest := by
  intro d hd
  cases h with
  | done => contradiction
  | stray stray =>
    obtain rfl := Option.some.inj hd
    exact ⟨stray.blank, stray.comment⟩

/-- Behind a last gap the lexer stops. -/
theorem next_stop {gap rest : List Char} (hgap : Gap gap rest) (h : Stops rest) (filename : String)
    (p : Position) :
    Reading.OfStop filename (p.after gap) rest (next filename ⟨gap ++ rest, p⟩) := by
  unfold next
  rw [hgap.skipGap_append h.endsGap]
  cases h with
  | done => rfl
  | stray stray =>
    simp only [Reading.OfStop, readToken, stray.word, Bool.false_eq_true, if_false,
      readMark?_eq_none stray.punctuation stray.operator]

/-! ### Whole texts -/

/-- Pieces, a last gap, and what is left behind it. -/
structure Segmentation where
  pieces : List Piece
  gap : List Char
  rest : List Char

namespace Segmentation

/-- The tokens of a segmentation: its lexemes, each at its place. -/
def tokens (filename : String) (g : Segmentation) : List Token := Piece.tokens filename [] g.pieces

/-- A segmentation of a text. -/
structure Of (g : Segmentation) (text : List Char) : Prop where
  joined : join g.pieces (g.gap ++ g.rest) = text
  cut : Cut (g.gap ++ g.rest) g.pieces
  last : Gap g.gap g.rest
  stops : Stops g.rest

/-- What begins with no gap can be passed over, or a segmentation stops there. -/
theorem passable_or_stops {c : Char} {text : List Char} (hgap : EndsGap (c :: text)) :
    (∃ piece rest content, c :: text = piece ++ rest ∧ Passable piece rest content) ∨
      Stops (c :: text) := by
  by_cases hword : isWordStart c = true
  · obtain ⟨word, rest, htext, run⟩ := exists_run text hword
    by_cases hmeans : ∃ content, Means word content
    · obtain ⟨content, hmeans⟩ := hmeans
      exact .inl ⟨word, rest, some content, htext, .lexeme (.word run hmeans)⟩
    · have hdigit := ((means_or_not word).resolve_left hmeans).1
      exact .inl ⟨word, rest, none, htext, .malformed run hdigit (not_exists.mp hmeans)⟩
  · rw [Bool.not_eq_true] at hword
    obtain ⟨hblank, hcomment⟩ := hgap c rfl
    by_cases hpunctuation : ∃ m : Punctuation, m.char = c
    · obtain ⟨m, rfl⟩ := hpunctuation
      exact .inl ⟨[m.char], text, _, rfl, .lexeme (.punctuation m text)⟩
    · by_cases hoperator : ∃ o : Operator, o.char = c
      · obtain ⟨o, rfl⟩ := hoperator
        exact .inl ⟨[o.char], text, _, rfl, .lexeme (.operator o text)⟩
      · exact .inr (.stray ⟨hblank, hcomment, hword, not_exists.mp hpunctuation,
          not_exists.mp hoperator⟩)

/-- Every text has a segmentation. -/
theorem exists_of (text : List Char) : ∃ g : Segmentation, g.Of text := by
  induction hlength : text.length using Nat.strong_induction_on generalizing text with
  | _ n ih =>
    obtain ⟨gap, behind, rfl, hgap, hends⟩ := (exists_gap text).1
    cases behind with
    | nil => exact ⟨⟨[], gap, []⟩, rfl, .nil, hgap, .done⟩
    | cons c tail =>
      rcases passable_or_stops hends with ⟨piece, rest, content, htext, hpassable⟩ | hstops
      · have hshorter : rest.length < n := by
          have hpos := hpassable.length_pos
          rw [← hlength, htext, List.length_append, List.length_append]
          omega
        obtain ⟨g, hjoined, hcut, hlast, hstops⟩ := ih _ hshorter rest rfl
        rw [htext] at hgap ⊢
        refine ⟨⟨⟨gap, piece, content⟩ :: g.pieces, g.gap, g.rest⟩, ?_, ?_, hlast, hstops⟩
        · rw [join, hjoined]
        · refine .cons ?_ ?_ hcut
          · rwa [hjoined]
          · rwa [hjoined]
      · exact ⟨⟨[], gap, c :: tail⟩, rfl, .nil, hgap, hstops⟩

/-- What shows of a reading: the content and the text of a piece, and the text behind it. -/
def shown : Reading → Option (Option TokenContent × String × List Char)
  | .token t after => some (some t.content, t.lexeme, after.rest)
  | .failure (.invalidNumber text _ _) after => some (none, text, after.rest)
  | _ => none

/-- The first piece of a segmentation shows in what is read, and where there is none nothing does. -/
theorem shown_next {pieces : List Piece} {gap rest : List Char} (hcut : Cut (gap ++ rest) pieces)
    (hgap : Gap gap rest) (hstops : Stops rest) :
    shown (next "" ⟨join pieces (gap ++ rest), {}⟩) =
      pieces.head?.map fun q =>
        (q.content, String.ofList q.text, join pieces.tail (gap ++ rest)) := by
  cases hcut with
  | nil =>
    have hread := next_stop hgap hstops "" {}
    rw [join]
    cases hstops with
    | done =>
      rw [hread]
      rfl
    | stray stray =>
      rw [hread]
      rfl
  | @cons q more hfirst hpassable _ =>
    have hread := next_passable hfirst hpassable "" {}
    rw [join]
    cases hcontent : q.content with
    | none =>
      rw [hcontent] at hread
      obtain ⟨overflow, hread⟩ := hread
      rw [hread]
      simp [shown, hcontent]
    | some content =>
      rw [hcontent] at hread
      rw [hread]
      simp [shown, hcontent]

/-- A gap ends where what stands behind it begins. -/
theorem gap_unique {gap gap' rest rest' : List Char} (hgap : Gap gap rest) (hgap' : Gap gap' rest')
    (hrest : EndsGap rest) (hrest' : EndsGap rest') (h : gap ++ rest = gap' ++ rest') :
    gap = gap' ∧ rest = rest' := by
  have hskip := hgap.skipGap_append hrest {}
  rw [h, hgap'.skipGap_append hrest' {}] at hskip
  obtain rfl := (Cursor.mk.inj hskip).1
  exact ⟨List.append_cancel_right h, rfl⟩

/-- Pieces are cut from a text in one way only. -/
theorem cut_unique {gap rest gap' rest' : List Char} {pieces pieces' : List Piece}
    (hcut : Cut (gap ++ rest) pieces) (hcut' : Cut (gap' ++ rest') pieces') (hgap : Gap gap rest)
    (hgap' : Gap gap' rest') (hstops : Stops rest) (hstops' : Stops rest')
    (hjoin : join pieces (gap ++ rest) = join pieces' (gap' ++ rest')) :
    pieces = pieces' ∧ gap = gap' ∧ rest = rest' := by
  induction pieces generalizing pieces' with
  | nil =>
    cases pieces' with
    | nil => exact ⟨rfl, gap_unique hgap hgap' hstops.endsGap hstops'.endsGap hjoin⟩
    | cons q' more' =>
      have hshown := shown_next hcut hgap hstops
      rw [hjoin, shown_next hcut' hgap' hstops'] at hshown
      contradiction
  | cons q more ih =>
    have hshown := shown_next hcut hgap hstops
    rw [hjoin, shown_next hcut' hgap' hstops'] at hshown
    cases pieces' with
    | nil => contradiction
    | cons q' more' =>
      simp only [List.head?_cons, Option.map_some, Option.some.injEq, Prod.mk.injEq,
        List.tail_cons] at hshown
      obtain ⟨hcontent, htext, hmore⟩ := hshown
      have htext : q'.text = q.text := String.ofList_injective htext
      cases hcut with
      | cons _ _ hothers =>
        cases hcut' with
        | cons _ _ hothers' =>
          obtain ⟨rfl, rfl, rfl⟩ := ih hothers hothers' hmore.symm
          simp only [join, htext] at hjoin
          have hsame : q = q' := by
            cases q
            cases q'
            simp_all
          exact ⟨by rw [hsame], rfl, rfl⟩

/-- A text has one segmentation only. -/
theorem Of.unique {g g' : Segmentation} {text : List Char} (h : g.Of text) (h' : g'.Of text) :
    g = g' := by
  obtain ⟨pieces, gap, rest⟩ := g
  obtain ⟨pieces', gap', rest'⟩ := g'
  obtain ⟨rfl, rfl, rfl⟩ := cut_unique h.cut h'.cut h.last h'.last h.stops h'.stops
    (h.joined.trans h'.joined.symm)
  rfl

end Segmentation

end Formulary.Lexer
