import Formulary.Proofs.Token.Tokenizing

/-!
# A text below another

Where a text is put below another, behind a line feed, a comment or a word at the end of the upper
text ends there, and no token is changed: the tokens of both are those of the upper text and those of
the lower one, which are only moved down (`tokenize_below`). A mistake in the lower text is found as
before, at its place further down.
-/

namespace Formulary

/-- How far down a text is moved: by lines and by characters. -/
structure Shift where
  lines : Nat
  characters : Nat
deriving DecidableEq, Repr

/-- How far down a text is moved by another one above it, with a line feed between them. -/
def Shift.below (upper : List Char) : Shift := ⟨upper.count '\n' + 1, upper.length + 1⟩

/-- A place further down, in the same column. -/
def Location.moved (d : Shift) (l : Location) : Location :=
  { l with line := l.line + d.lines, offset := l.offset + d.characters }

/-- A token further down. -/
def Token.moved (d : Shift) (t : Token) : Token := { t with location := t.location.map (·.moved d) }

/-- A mistake in the spelling further down. -/
def LexicalError.moved (d : Shift) : LexicalError → LexicalError
  | invalidCharacter char location => invalidCharacter char (location.map (·.moved d))
  | invalidNumber text overflow location => invalidNumber text overflow (location.map (·.moved d))

/-- The last line of a text below another is its own. -/
theorem takeWhile_last_line (upper lower : List Char) :
    (upper ++ '\n' :: lower).reverse.takeWhile (· != '\n') =
      lower.reverse.takeWhile (· != '\n') := by
  rw [List.reverse_append, List.reverse_cons, List.append_assoc]
  generalize lower.reverse = last
  induction last with
  | nil => rfl
  | cons c last ih =>
    rw [List.cons_append, List.takeWhile_cons, List.takeWhile_cons, ih]

/-- A place in a text below another is further down. -/
theorem Location.behind_append (filename : String) (upper lower : List Char) :
    behind filename (upper ++ '\n' :: lower) = (behind filename lower).moved (.below upper) := by
  have hcount : (upper ++ '\n' :: lower).count '\n' = upper.count '\n' + (lower.count '\n' + 1) := by
    rw [List.count_append, List.count_cons_self]
  have hlength : (upper ++ '\n' :: lower).length = upper.length + (lower.length + 1) := by
    rw [List.length_append, List.length_cons]
  rw [behind, behind, moved, takeWhile_last_line, hcount, hlength]
  congr 1 <;> simp only [Shift.below] <;> omega

namespace Lexer

open Segment

/-! ### What stands above a line -/

/-- A gap stays one if a line is put below what comes behind it. -/
theorem Gap.above {gap rest : List Char} (h : Gap gap rest) (line : List Char) :
    Gap gap (rest ++ '\n' :: line) := by
  induction h with
  | nil => exact .nil
  | blank hc _ ih => exact .blank hc ih
  | @comment body gap rest hbody hend _ ih =>
    refine .comment hbody (fun c hc => ?_) ih
    rw [← List.append_assoc] at hc
    cases hbehind : gap ++ rest with
    | nil =>
      rw [hbehind] at hc
      exact (Option.some.inj hc).symm
    | cons d more =>
      rw [hbehind] at hc hend
      exact hend c hc

/-- A last gap goes on with the gap at the beginning of a line below. -/
theorem Gap.append {gap lower rest : List Char} (h : Gap gap []) (h' : Gap lower rest) :
    Gap (gap ++ '\n' :: lower) rest := by
  generalize hnil : ([] : List Char) = none at h
  induction h with
  | nil => exact .blank (by decide) h'
  | blank hc _ ih => exact .blank hc (ih hnil)
  | @comment body gap none hbody hend _ ih =>
    subst hnil
    rw [List.cons_append, List.append_assoc]
    refine .comment hbody (fun c hc => ?_) (ih rfl)
    rw [List.append_nil] at hend
    cases gap with
    | nil => exact (Option.some.inj hc).symm
    | cons d more => exact hend c hc

/-- A lexeme stays one if a line is put below what comes behind it. -/
theorem Lexeme.above {lexeme rest : List Char} {content : TokenContent}
    (h : Lexeme lexeme rest content) (line : List Char) :
    Lexeme lexeme (rest ++ '\n' :: line) content := by
  cases h with
  | punctuation m => exact .punctuation m _
  | operator o => exact .operator o _
  | word run means =>
    exact .word ⟨run.start, run.inside, run.behind.append (.cons (by decide))⟩ means

/-- So do segments. -/
theorem Segment.Cut.above {rest : List Char} {segments : List Segment} (h : Cut rest segments)
    (line : List Char) : Cut (rest ++ '\n' :: line) segments := by
  induction h with
  | nil => exact .nil
  | cons gap lexeme _ ih =>
    refine .cons ?_ ?_ ih
    · rw [join_append, ← List.append_assoc]
      exact gap.above line
    · rw [join_append]
      exact lexeme.above line

/-- The text of segments in front of others. -/
theorem Segment.join_append_segments (segments others : List Segment) (rest : List Char) :
    join (segments ++ others) rest = join segments (join others rest) := by
  induction segments with
  | nil => rfl
  | cons s more ih => rw [List.cons_append, join, join, ih]

/-- Segments in front of others are cut well if they are so in front of the text of the others. -/
theorem Segment.Cut.append {rest : List Char} {segments others : List Segment}
    (h : Cut (join others rest) segments) (h' : Cut rest others) : Cut rest (segments ++ others) := by
  induction h with
  | nil => exact h'
  | cons gap lexeme _ ih =>
    rw [← join_append_segments] at gap lexeme
    exact .cons gap lexeme ih

/-- A mistake further down is the mistake, moved. -/
theorem Mistake.moved {place : Location} {text : List Char} {e : LexicalError}
    (h : Mistake place text e) (d : Shift) : Mistake (place.moved d) text (e.moved d) := by
  cases h with
  | character blank comment word punctuation operator =>
    exact .character blank comment word punctuation operator
  | malformed run first h => exact .malformed run first h
  | overflow run spelled large => exact .overflow run spelled large

/-! ### Factorisations -/

namespace Factorisation

/-- A factorisation below a last gap: its own first gap goes on with it. -/
def under (gap : List Char) : Factorisation → Factorisation
  | ⟨[], last⟩ => ⟨[], gap ++ '\n' :: last⟩
  | ⟨s :: more, last⟩ => ⟨{ s with gap := gap ++ '\n' :: s.gap } :: more, last⟩

/-- The factorisation of two texts, the second below the first. -/
def below (upper lower : Factorisation) : Factorisation where
  segments := upper.segments ++ (lower.under upper.gap).segments
  gap := (lower.under upper.gap).gap

variable {upper lower : Factorisation} {gap source text rest : List Char}

/-- The text of a factorisation below a last gap is behind the gap and a line feed. -/
theorem join_under (gap rest : List Char) (f : Factorisation) :
    join (f.under gap).segments ((f.under gap).gap ++ rest) =
      gap ++ '\n' :: join f.segments (f.gap ++ rest) := by
  obtain ⟨segments, last⟩ := f
  cases segments <;> simp only [under, join, List.append_assoc, List.cons_append]

/-- A factorisation still fits below a last gap. -/
theorem Fits.under (h : lower.Fits text rest) (hgap : Gap gap []) :
    (lower.under gap).Fits (gap ++ '\n' :: text) rest := by
  constructor
  · rw [join_under, h.joined]
  · obtain ⟨segments, last⟩ := lower
    obtain ⟨_, hcut, _⟩ := h
    cases hcut with
    | nil => exact .nil
    | cons hfirst hlexeme hmore => exact .cons (hgap.append hfirst) hlexeme hmore
  · obtain ⟨segments, last⟩ := lower
    cases segments with
    | nil => exact hgap.append h.last
    | cons s more => exact h.last

/-- Factorisations of two texts make one of the second below the first. -/
theorem Fits.below (h : upper.Fits source []) (h' : lower.Fits text rest) :
    (upper.below lower).Fits (source ++ '\n' :: text) rest := by
  obtain ⟨hsource, hcut, hlast⟩ := h
  obtain ⟨hjoin, hcut', hlast'⟩ := h'.under hlast
  rw [List.append_nil] at hsource hcut
  constructor
  · -- The last gap of the upper text is counted to the lower one.
    rw [Factorisation.below, join_append_segments, hjoin, join_append, hsource]
  · refine Cut.append ?_ hcut'
    rw [Factorisation.below, hjoin]
    exact hcut.above text
  · exact hlast'

end Factorisation

/-- The tokens of segments and others behind them. -/
theorem Segment.tokens_append (filename : String) (before : List Char)
    (segments others : List Segment) : tokens filename before (segments ++ others) =
      tokens filename before segments ++ tokens filename (before ++ join segments []) others := by
  induction segments generalizing before with
  | nil => simp only [List.nil_append, tokens, join, List.append_nil]
  | cons s more ih => simp only [List.cons_append, tokens, join, ih, List.append_assoc]

/-- The tokens of segments in a text below another are further down. -/
theorem Segment.tokens_below (filename : String) (upper before : List Char)
    (segments : List Segment) : tokens filename (upper ++ '\n' :: before) segments =
      (tokens filename before segments).map (Token.moved (.below upper)) := by
  induction segments generalizing before with
  | nil => rfl
  | cons s more ih =>
    rw [tokens, tokens, List.map_cons, List.append_assoc, List.cons_append, List.append_assoc,
      List.cons_append, Location.behind_append, ih]
    rfl

namespace Factorisation

/-- The tokens of a factorisation below a last gap are those with the gap before them. -/
theorem tokens_under (filename : String) (before gap : List Char) (f : Factorisation) :
    Segment.tokens filename before (f.under gap).segments =
      Segment.tokens filename (before ++ gap ++ ['\n']) f.segments := by
  obtain ⟨segments, last⟩ := f
  cases segments with
  | nil => rfl
  | cons s more =>
    simp only [under, Segment.tokens, List.append_assoc, List.cons_append, List.nil_append]

/-- The tokens of two texts, the second below the first. -/
theorem tokens_below (filename : String) (upper lower : Factorisation) :
    (upper.below lower).tokens filename =
      upper.tokens filename ++ (lower.tokens filename).map (Token.moved (.below upper.text)) := by
  have hbefore : join upper.segments [] ++ upper.gap = upper.text := (join_append _ _ _).symm
  rw [tokens, below, Segment.tokens_append, List.nil_append, tokens_under, hbefore,
    Segment.tokens_below]
  rfl

/-- The text of two texts, the second below the first. -/
theorem text_below (upper lower : Factorisation) :
    (upper.below lower).text = upper.text ++ '\n' :: lower.text := by
  have hunder := join_under upper.gap [] lower
  rw [List.append_nil, List.append_nil] at hunder
  rw [text, below, join_append_segments, hunder, join_append, text, text]

end Factorisation

/-- The tokens of a text below another are those of the upper text and those of the lower one, moved
down; a mistake in the lower text is the mistake, moved down. -/
theorem tokenize_below {upper filename : String} {ts : List Token}
    (h : tokenize upper filename = .ok ts) (lower : String) :
    tokenize (upper ++ "\n" ++ lower) filename =
      match tokenize lower filename with
      | .ok us => .ok (ts ++ us.map (Token.moved (.below upper.toList)))
      | .error e => .error (e.moved (.below upper.toList)) := by
  have hlist : (upper ++ "\n" ++ lower).toList = upper.toList ++ '\n' :: lower.toList := by
    rw [String.toList_append, String.toList_append, List.append_assoc]
    rfl
  rcases tokenize_cases upper filename with ⟨f, hf, hupper⟩ | ⟨_, _, _, _, _, hupper⟩
  · obtain rfl := Except.ok.inj (hupper.symm.trans h)
    have htext : f.text = upper.toList := by rw [← hf.joined, List.append_nil, Factorisation.text]
    rcases tokenize_cases lower filename with ⟨g, hg, hlower⟩ | ⟨g, rest, e, hg, hmistake, hlower⟩
    · have hfits := hf.below hg
      rw [← hlist] at hfits
      rw [hlower, hfits.tokenize, Factorisation.tokens_below, htext]
    · have hfits := hf.below hg
      have hmoved := hmistake.moved (.below upper.toList)
      rw [← hlist] at hfits
      rw [← Location.behind_append, ← htext, ← Factorisation.text_below, htext] at hmoved
      rw [hlower]
      exact hfits.tokenize_mistake hmoved
  · cases hupper.symm.trans h

end Lexer

end Formulary
