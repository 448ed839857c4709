import Formulary.File.Source
import Formulary.Proofs.Token.Tokenizing

/-!
# Line ends in files

A file is read with a line feed for every line end, a text as it is. Where a carriage return stands
only before a line feed the difference is that the carriage returns are left out (`dropReturns`).
A carriage return is a blank or belongs to a comment, and no word goes on over it, so the gaps of the
text without them are the gaps without them, and the lexemes are the same. No lexeme and no mistake
stands between a carriage return and its line feed, and the line feed starts a new line: so a place
loses characters of its offset and none of its column.
-/

namespace Formulary

/-- Every carriage return of a text stands before a line feed. -/
def ReturnsEndLines (text : List Char) : Prop :=
  ∀ index < text.length, text[index]? = some '\r' → text[index + 1]? = some '\n'

instance (text : List Char) : Decidable (ReturnsEndLines text) :=
  inferInstanceAs (Decidable (∀ index < text.length, _))

/-- A text without its carriage returns. -/
def dropReturns (text : List Char) : List Char := text.filter (· != '\r')

/-- A place of a text, if the carriage returns of the text are left out: the ones before the place are
missing from its offset. -/
def Location.withoutReturns (text : List Char) (l : Location) : Location :=
  { l with offset := l.offset - (text.take l.offset).count '\r' }

/-- A token of a text, if the carriage returns of the text are left out. -/
def Token.withoutReturns (text : List Char) (t : Token) : Token :=
  { t with location := t.location.map (·.withoutReturns text) }

/-- A mistake in a text, if the carriage returns of the text are left out. -/
def LexicalError.withoutReturns (text : List Char) : LexicalError → LexicalError
  | invalidCharacter char location => invalidCharacter char (location.map (·.withoutReturns text))
  | invalidNumber word overflow location =>
    invalidNumber word overflow (location.map (·.withoutReturns text))

/-- No more characters are missing from an offset than there are. -/
theorem Location.offset_withoutReturns (text : List Char) (l : Location) :
    (l.withoutReturns text).offset + (text.take l.offset).count '\r' = l.offset := by
  have hcount : (text.take l.offset).count '\r' ≤ l.offset :=
    Nat.le_trans List.count_le_length (List.length_take_le l.offset text)
  exact Nat.sub_add_cancel hcount

/-! ### Texts -/

section

variable {text before rest : List Char} {c : Char}

@[simp] theorem dropReturns_nil : dropReturns [] = [] := rfl

theorem dropReturns_append (text more : List Char) :
    dropReturns (text ++ more) = dropReturns text ++ dropReturns more :=
  List.filter_append text more

theorem dropReturns_cons_of_ne (h : c ≠ '\r') (text : List Char) :
    dropReturns (c :: text) = c :: dropReturns text :=
  List.filter_cons_of_pos (bne_iff_ne.mpr h)

theorem dropReturns_cons_return (text : List Char) :
    dropReturns ('\r' :: text) = dropReturns text :=
  List.filter_cons_of_neg (by simp)

/-- A text that has no carriage returns stays as it is. -/
theorem dropReturns_of_not_mem (h : '\r' ∉ text) : dropReturns text = text :=
  List.filter_eq_self.mpr fun _ hc => bne_iff_ne.mpr (ne_of_mem_of_not_mem hc h)

/-- The carriage returns are missing from the length. -/
theorem length_dropReturns (text : List Char) :
    (dropReturns text).length + text.count '\r' = text.length := by
  induction text with
  | nil => rfl
  | cons c text ih =>
    by_cases hc : c = '\r'
    · rw [hc, dropReturns_cons_return, List.count_cons_self, List.length_cons]
      omega
    · rw [dropReturns_cons_of_ne hc, List.count_cons_of_ne hc, List.length_cons, List.length_cons]
      omega

/-- If carriage returns stand before line feeds, then they do behind the first character. -/
theorem ReturnsEndLines.tail (h : ReturnsEndLines (c :: rest)) : ReturnsEndLines rest :=
  fun index hindex => h (index + 1) (Nat.succ_lt_succ hindex)

/-- So they do behind any beginning of a text. -/
theorem ReturnsEndLines.of_append (h : ReturnsEndLines (before ++ rest)) : ReturnsEndLines rest := by
  induction before with
  | nil => exact h
  | cons c before ih => exact ih h.tail

/-- A text goes on with a line feed behind a carriage return. -/
theorem ReturnsEndLines.exists_cons (h : ReturnsEndLines ('\r' :: rest)) :
    ∃ more, rest = '\n' :: more := by
  have hend := h 0 (Nat.succ_pos _) rfl
  cases rest with
  | nil => contradiction
  | cons d more => exact ⟨more, by rw [← Option.some.inj hend]⟩

/-- Then the text is what a file of it is read as, without its carriage returns. -/
theorem ReturnsEndLines.unifyLineEnds_eq (h : ReturnsEndLines text) :
    File.unifyLineEnds text = dropReturns text := by
  fun_induction File.unifyLineEnds text with
  | case1 => rfl
  | case2 rest ih =>
    rw [ih h.tail.tail, dropReturns_cons_return, dropReturns_cons_of_ne (by decide)]
  | case3 c rest hother ih =>
    have hc : c ≠ '\r' := by
      rintro rfl
      obtain ⟨more, rfl⟩ := h.exists_cons
      exact hother more rfl rfl
    rw [ih h.tail, if_neg hc, dropReturns_cons_of_ne hc]

/-- The last line of a text has no carriage returns, unless it goes on with a line feed. -/
theorem last_line_dropReturns (h : ReturnsEndLines (before ++ rest))
    (hrest : rest.head? ≠ some '\n') :
    (dropReturns before).reverse.takeWhile (· != '\n') =
      before.reverse.takeWhile (· != '\n') := by
  induction before using List.reverseRecOn generalizing rest with
  | nil => rfl
  | append_singleton before c ih =>
    rw [List.append_assoc] at h
    have hc : c ≠ '\r' := by
      rintro rfl
      obtain ⟨more, rfl⟩ := h.of_append.exists_cons
      exact hrest rfl
    rw [dropReturns_append, dropReturns_cons_of_ne hc, dropReturns_nil,
      List.reverse_concat, List.reverse_concat]
    by_cases hline : c = '\n'
    · rw [hline, List.takeWhile_cons_of_neg (by decide), List.takeWhile_cons_of_neg (by decide)]
    · have hother : (c != '\n') = true := bne_iff_ne.mpr hline
      rw [List.takeWhile_cons, List.takeWhile_cons, hother,
        ih h fun hhead => hline (Option.some.inj hhead)]

/-- The place behind a text without its carriage returns. -/
theorem Location.behind_withoutReturns (filename : String) (h : ReturnsEndLines (before ++ rest))
    (hrest : rest.head? ≠ some '\n') : behind filename (dropReturns before) =
      (behind filename before).withoutReturns (before ++ rest) := by
  have hline : (dropReturns before).count '\n' = before.count '\n' :=
    List.count_filter (by decide)
  have hoffset : (dropReturns before).length =
      before.length - before.count '\r' := Nat.eq_sub_of_add_eq (length_dropReturns before)
  rw [behind, behind, withoutReturns, hline, last_line_dropReturns h hrest, hoffset,
    List.take_left]

end

namespace Lexer

open Segment

/-! ### Gaps, lexemes and mistakes -/

section

variable {gap lexeme word text rest : List Char} {content : TokenContent} {place : Location}
  {e : LexicalError}

/-- A gap is one without its carriage returns too. -/
theorem Gap.withoutReturns (h : Gap gap rest) :
    Gap (dropReturns gap) (dropReturns rest) := by
  induction h with
  | nil => exact .nil
  | @blank c gap rest hc _ ih =>
    by_cases hreturn : c = '\r'
    · rwa [hreturn, dropReturns_cons_return]
    · rw [dropReturns_cons_of_ne hreturn]
      exact .blank hc ih
  | @comment body gap rest hbody hend _ ih =>
    rw [dropReturns_cons_of_ne (by decide), dropReturns_append]
    refine .comment (fun hline => hbody (List.mem_of_mem_filter hline)) (fun c hc => ?_) ih
    rw [← dropReturns_append] at hc
    cases hbehind : gap ++ rest with
    | nil =>
      rw [hbehind] at hc
      contradiction
    | cons d more =>
      obtain rfl := hend d (by rw [hbehind]; rfl)
      rw [hbehind, dropReturns_cons_of_ne (by decide)] at hc
      exact (Option.some.inj hc).symm

/-- Where a word ends it ends without carriage returns too: what comes behind one is a line feed. -/
theorem EndsWord.withoutReturns (h : EndsWord rest) (hreturns : ReturnsEndLines rest) :
    EndsWord (dropReturns rest) := by
  cases rest with
  | nil => exact h
  | cons c more =>
    by_cases hreturn : c = '\r'
    · subst hreturn
      obtain ⟨more, rfl⟩ := hreturns.exists_cons
      rw [dropReturns_cons_return, dropReturns_cons_of_ne (by decide)]
      exact .cons (by decide)
    · rw [dropReturns_cons_of_ne hreturn]
      exact .cons (h c rfl)

/-- A longest run has no carriage returns. -/
theorem Run.dropReturns_eq (run : Run word rest) : dropReturns word = word :=
  dropReturns_of_not_mem fun h => absurd (run.inside _ h) (by decide)

/-- A longest run is one if the carriage returns behind it are left out. -/
theorem Run.withoutReturns (run : Run word rest) (hreturns : ReturnsEndLines rest) :
    Run word (dropReturns rest) :=
  ⟨run.start, run.inside, run.behind.withoutReturns hreturns⟩

/-- A lexeme has no carriage returns. -/
theorem Lexeme.dropReturns_eq (h : Lexeme lexeme rest content) :
    dropReturns lexeme = lexeme := by
  cases h with
  | punctuation m => cases m <;> rfl
  | operator o => cases o <;> rfl
  | word run => exact run.dropReturns_eq

/-- A lexeme is one if the carriage returns behind it are left out. -/
theorem Lexeme.withoutReturns (h : Lexeme lexeme rest content) (hreturns : ReturnsEndLines rest) :
    Lexeme lexeme (dropReturns rest) content := by
  cases h with
  | punctuation m => exact .punctuation m _
  | operator o => exact .operator o _
  | word run means => exact .word (run.withoutReturns hreturns) means

/-- A mistake is one without the carriage returns of the text. -/
theorem Mistake.withoutReturns (h : Mistake place rest e) (hreturns : ReturnsEndLines rest)
    (text : List Char) :
    Mistake (place.withoutReturns text) (dropReturns rest) (e.withoutReturns text) := by
  cases h with
  | @character c rest blank comment word punctuation operator =>
    have hreturn : c ≠ '\r' := by
      rintro rfl
      contradiction
    rw [dropReturns_cons_of_ne hreturn]
    exact .character blank comment word punctuation operator
  | @malformed word rest run first h =>
    rw [dropReturns_append, run.dropReturns_eq]
    exact .malformed (run.withoutReturns hreturns.of_append) first h
  | @overflow word rest n run spelled large =>
    rw [dropReturns_append, run.dropReturns_eq]
    exact .overflow (run.withoutReturns hreturns.of_append) spelled large

/-- No longest run begins with a line feed. -/
theorem Run.head?_ne (run : Run word rest) : (word ++ rest).head? ≠ some '\n' := by
  obtain ⟨c, tail, rfl, hc⟩ := run.start
  intro hline
  rw [Option.some.inj hline] at hc
  contradiction

/-- No lexeme does. -/
theorem Lexeme.head?_ne (h : Lexeme lexeme rest content) : (lexeme ++ rest).head? ≠ some '\n' := by
  cases h with
  | punctuation m => cases m <;> simp [Punctuation.char]
  | operator o => cases o <;> simp [Operator.char]
  | word run => exact run.head?_ne

/-- No mistake does. -/
theorem Mistake.head?_ne (h : Mistake place rest e) : rest.head? ≠ some '\n' := by
  cases h with
  | character blank =>
    intro hline
    rw [Option.some.inj hline] at blank
    contradiction
  | malformed run => exact run.head?_ne
  | overflow run => exact run.head?_ne

end

/-! ### Factorisations -/

/-- A segment without its carriage returns, which are all in its gap. -/
def Segment.withoutReturns (s : Segment) : Segment := { s with gap := dropReturns s.gap }

/-- A factorisation without its carriage returns. -/
def Factorisation.withoutReturns (f : Factorisation) : Factorisation where
  segments := f.segments.map Segment.withoutReturns
  gap := dropReturns f.gap

/-- The text of segments without its carriage returns. -/
theorem Segment.Cut.join_dropReturns {rest : List Char} {segments : List Segment}
    (h : Cut rest segments) (more : List Char) :
    join (segments.map Segment.withoutReturns) (dropReturns more) =
      dropReturns (join segments more) := by
  induction h with
  | nil => rfl
  | cons _ lexeme _ ih =>
    simp only [List.map_cons, join, dropReturns_append, lexeme.dropReturns_eq, ih]
    rfl

/-- Segments are cut well without their carriage returns. -/
theorem Segment.Cut.withoutReturns {rest : List Char} {segments : List Segment}
    (h : Cut rest segments) (hreturns : ReturnsEndLines (join segments rest)) :
    Cut (dropReturns rest) (segments.map Segment.withoutReturns) := by
  induction h with
  | nil => exact .nil
  | @cons s more gap lexeme hmore ih =>
    rw [join] at hreturns
    have hbehind := hreturns.of_append.of_append
    refine .cons ?_ ?_ (ih hbehind)
    · rw [hmore.join_dropReturns, Segment.withoutReturns, ← lexeme.dropReturns_eq,
        ← dropReturns_append]
      exact gap.withoutReturns
    · rw [hmore.join_dropReturns]
      exact lexeme.withoutReturns hbehind

/-- The tokens of segments without their carriage returns. -/
theorem Segment.Cut.tokens_withoutReturns {rest text : List Char} {segments : List Segment}
    (h : Cut rest segments) (filename : String) (before : List Char)
    (htext : before ++ join segments rest = text) (hreturns : ReturnsEndLines text) :
    tokens filename (dropReturns before) (segments.map Segment.withoutReturns) =
      (tokens filename before segments).map (Token.withoutReturns text) := by
  induction h generalizing before with
  | nil => rfl
  | @cons s more gap lexeme _ ih =>
    have hgap : before ++ s.gap ++ (s.lexeme ++ join more rest) = text := by
      rw [← htext, join, List.append_assoc]
    have hlexeme : before ++ (s.gap ++ s.lexeme) ++ join more rest = text := by
      rw [← hgap, List.append_assoc, List.append_assoc, List.append_assoc]
    have hplace := Location.behind_withoutReturns filename (hgap ▸ hreturns) lexeme.head?_ne
    have hothers := ih _ hlexeme
    rw [hgap, dropReturns_append] at hplace
    rw [dropReturns_append, dropReturns_append, lexeme.dropReturns_eq] at hothers
    rw [List.map_cons, tokens, tokens, List.map_cons, ← hothers]
    simp only [Segment.withoutReturns, Token.withoutReturns, hplace, Option.map_some]

namespace Factorisation

variable {f : Factorisation} {text rest : List Char}

/-- A factorisation of a text fits without the carriage returns. -/
theorem Fits.withoutReturns (h : f.Fits text rest) (hreturns : ReturnsEndLines text) :
    f.withoutReturns.Fits (dropReturns text) (dropReturns rest) := by
  obtain ⟨hjoined, hcut, hlast⟩ := h
  rw [← hjoined] at hreturns ⊢
  refine ⟨?_, ?_, hlast.withoutReturns⟩
  · rw [← hcut.join_dropReturns, dropReturns_append]
    rfl
  · have hcut' := hcut.withoutReturns hreturns
    rwa [dropReturns_append] at hcut'

/-- Its tokens are those of the factorisation without the carriage returns. -/
theorem Fits.tokens_withoutReturns (h : f.Fits text rest) (hreturns : ReturnsEndLines text)
    (filename : String) : f.withoutReturns.tokens filename =
      (f.tokens filename).map (Token.withoutReturns text) :=
  h.cut.tokens_withoutReturns filename [] h.joined hreturns

/-- The text of a factorisation without its carriage returns. -/
theorem Fits.text_withoutReturns (h : f.Fits text rest) :
    f.withoutReturns.text = dropReturns f.text := h.cut.join_dropReturns f.gap

/-- The text of a factorisation is the text up to what is left of it. -/
theorem Fits.text_append (h : f.Fits text rest) : f.text ++ rest = text := by
  rw [← h.joined, join_append]
  rfl

end Factorisation

end Lexer

/-- A file and its text agree. Where every carriage return stands before a line feed, the tokens of a
file that holds a text in UTF-8 are the tokens of the text, with the same contents and spellings in
the same lines and columns, and where the text has a mistake the file has the same one in the same line
and column. Only the carriage returns before it are missing from the offset of a place. -/
theorem File.tokenize_agrees_with_text (text path : String) (h : ReturnsEndLines text.toList) :
    File.tokenize path (.ok text.toUTF8) =
      match Lexer.tokenize text path with
      | .ok ts => .ok (ts.map (Token.withoutReturns text.toList))
      | .error e => .error (.source (.lexical (e.withoutReturns text.toList))) := by
  have hfile : (String.ofList (File.unifyLineEnds text.toList)).toList = dropReturns text.toList := by
    rw [String.toList_ofList, h.unifyLineEnds_eq]
  simp only [File.tokenize, File.decode, File.text?_toUTF8]
  rcases Lexer.tokenize_cases text path with ⟨f, hf, htext⟩ | ⟨f, rest, e, hf, hmistake, htext⟩
  · have hfits := hf.withoutReturns h
    rw [← hfile] at hfits
    rw [htext, hfits.tokenize, hf.tokens_withoutReturns h]
  · have hfits := hf.withoutReturns h
    have happend := hf.text_append
    have hreturns : ReturnsEndLines (f.text ++ rest) := happend ▸ h
    have hplace := Location.behind_withoutReturns path hreturns hmistake.head?_ne
    have hmistake' := hmistake.withoutReturns hreturns.of_append text.toList
    rw [happend, ← hf.text_withoutReturns] at hplace
    rw [← hfile] at hfits
    rw [← hplace] at hmistake'
    rw [htext, hfits.tokenize_mistake hmistake']

/-- Behind a comment that ends in a carriage return, and behind a word that does, tokens and mistakes
are found in their columns, one character earlier in the file. -/
theorem File.tokenize_agrees_behind_line_end :
    ReturnsEndLines "x # y\r\n\tz\r\n".toList ∧
    Lexer.tokenize "x # y\r\n\tz\r\n" "f.k" =
      .ok [⟨.identifier "x", "x", some ⟨"f.k", 1, 1, 0⟩⟩,
        ⟨.identifier "z", "z", some ⟨"f.k", 2, 2, 8⟩⟩] ∧
    File.tokenize "f.k" (.ok "x # y\r\n\tz\r\n".toUTF8) =
      .ok [⟨.identifier "x", "x", some ⟨"f.k", 1, 1, 0⟩⟩,
        ⟨.identifier "z", "z", some ⟨"f.k", 2, 2, 7⟩⟩] ∧
    ReturnsEndLines "x\r\n 1.2.3".toList ∧
    Lexer.tokenize "x\r\n 1.2.3" "f.k" =
      .error (.invalidNumber "1.2.3" false (some ⟨"f.k", 2, 2, 4⟩)) ∧
    File.tokenize "f.k" (.ok "x\r\n 1.2.3".toUTF8) =
      .error (.source (.lexical (.invalidNumber "1.2.3" false (some ⟨"f.k", 2, 2, 3⟩)))) := by
  have hreturns : ReturnsEndLines "x # y\r\n\tz\r\n".toList := by decide
  have hreturns' : ReturnsEndLines "x\r\n 1.2.3".toList := by decide
  have htokens : Lexer.tokenize "x # y\r\n\tz\r\n" "f.k" =
      .ok [⟨.identifier "x", "x", some ⟨"f.k", 1, 1, 0⟩⟩,
        ⟨.identifier "z", "z", some ⟨"f.k", 2, 2, 8⟩⟩] := by cbv
  have hmistake : Lexer.tokenize "x\r\n 1.2.3" "f.k" =
      .error (.invalidNumber "1.2.3" false (some ⟨"f.k", 2, 2, 4⟩)) := by cbv
  refine ⟨hreturns, htokens, ?_, hreturns', hmistake, ?_⟩
  · rw [File.tokenize_agrees_with_text _ _ hreturns, htokens]
    rfl
  · rw [File.tokenize_agrees_with_text _ _ hreturns', hmistake]
    rfl

end Formulary
