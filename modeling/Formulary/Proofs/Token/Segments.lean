import Formulary.Proofs.Source.Words
import Formulary.Proofs.Token.Numerals

/-!
# The lexical grammar

A text is a gap and then lexemes, each with a gap behind it. A gap holds blanks and comments; a lexeme
is a mark, an operator, or a word that goes on as long as it can and means something. Whether a piece
of text is a gap or a lexeme depends on the text behind it, since comments and words have to end there.
At the beginning of a text that goes on neither with a gap nor with a lexeme there is a `Mistake`.
The rules say nothing of cursors or of the order in which characters are looked at; that passing over
gaps and reading tokens keeps to them is proved below.
-/

namespace Formulary

namespace Lexer

/-- A gap in front of a text: blanks and comments. A comment runs up to the next line feed, or to the
end of the text. -/
inductive Gap : List Char → List Char → Prop where
  | nil {rest : List Char} : Gap [] rest
  | blank {c : Char} {gap rest : List Char} (hc : Text.isBlank c = true) (h : Gap gap rest) :
    Gap (c :: gap) rest
  | comment {body gap rest : List Char} (hbody : '\n' ∉ body)
    (hend : ∀ c ∈ (gap ++ rest).head?, c = '\n') (h : Gap gap rest) :
    Gap ('#' :: (body ++ gap)) rest

/-- A longest run of word characters in front of a text. -/
structure Run (word rest : List Char) : Prop where
  start : ∃ c tail, word = c :: tail ∧ isWordStart c = true
  inside : ∀ c ∈ word, isWordContinue c = true
  behind : EndsWord rest

/-- What a word means. One that begins with a digit has to spell a finite number; any other word is
reserved or a name. -/
inductive Means : List Char → TokenContent → Prop where
  | keyword (k : Keyword) : Means k.text.toList (.keyword k)
  | identifier {word : List Char} (first : word.head?.any Char.isDigit = false)
    (free : ∀ k : Keyword, k.text.toList ≠ word) : Means word (.identifier (String.ofList word))
  | number {word : List Char} {n : Numeral} {x : Float} (spelled : Numeral.Spells word n)
    (finite : n.value? = some x) : Means word (.number x)

/-- A lexeme in front of a text, with its content. -/
inductive Lexeme : List Char → List Char → TokenContent → Prop where
  | punctuation (m : Punctuation) (rest : List Char) : Lexeme [m.char] rest (.punctuation m)
  | operator (o : Operator) (rest : List Char) : Lexeme [o.char] rest (.operator o)
  | word {word rest : List Char} {content : TokenContent} (run : Run word rest)
    (means : Means word content) : Lexeme word rest content

/-- A mistake at the beginning of a text, which stands at the given place: a character that begins
neither a gap nor a lexeme, or a run that begins with a digit and spells no number or none that is
finite. -/
inductive Mistake (place : Location) : List Char → LexicalError → Prop where
  | character {c : Char} {rest : List Char} (blank : Text.isBlank c = false) (comment : c ≠ '#')
    (word : isWordStart c = false) (punctuation : ∀ m : Punctuation, m.char ≠ c)
    (operator : ∀ o : Operator, o.char ≠ c) :
    Mistake place (c :: rest) (.invalidCharacter c place)
  | malformed {word rest : List Char} (run : Run word rest)
    (first : word.head?.any Char.isDigit = true) (h : ∀ n, ¬Numeral.Spells word n) :
    Mistake place (word ++ rest) (.invalidNumber (String.ofList word) false place)
  | overflow {word rest : List Char} {n : Numeral} (run : Run word rest)
    (spelled : Numeral.Spells word n) (large : n.value? = none) :
    Mistake place (word ++ rest) (.invalidNumber (String.ofList word) true place)

/-- A text does not begin with a gap. -/
def EndsGap (text : List Char) : Prop := ∀ c ∈ text.head?, Text.isBlank c = false ∧ c ≠ '#'

/-! ### Gaps -/

/-- From inside a comment the lexer comes to its end. -/
theorem skipGap_comment {body text : List Char} (hbody : '\n' ∉ body)
    (hend : ∀ c ∈ text.head?, c = '\n') (p : Position) :
    skipGap true p (body ++ text) = skipGap false (p.after body) text := by
  induction body generalizing p with
  | nil =>
    cases text with
    | nil => rfl
    | cons c rest =>
      obtain rfl := hend c rfl
      rfl
  | cons c body ih =>
    have hc : c ≠ '\n' := (List.ne_of_not_mem_cons hbody).symm
    rw [List.cons_append, skipGap, bne_iff_ne.mpr hc, ih (List.not_mem_of_not_mem_cons hbody),
      Position.after_cons]

/-- The lexer passes over a gap. -/
theorem Gap.skipGap_append {gap rest : List Char} (h : Gap gap rest) (hrest : EndsGap rest)
    (p : Position) : skipGap false p (gap ++ rest) = ⟨rest, p.after gap⟩ := by
  induction h generalizing p with
  | @nil rest =>
    cases rest with
    | nil => rfl
    | cons c rest =>
      obtain ⟨hblank, hcomment⟩ := hrest c rfl
      simp only [List.nil_append, skipGap, hblank, Bool.false_eq_true, if_false, if_neg hcomment,
        Position.after_nil]
  | @blank c gap rest hc _ ih =>
    simp only [List.cons_append, skipGap, hc, if_true, ih hrest, Position.after_cons]
  | @comment body gap rest hbody hend _ ih =>
    have hskip (text : List Char) :
        skipGap false p ('#' :: text) = skipGap true (p.next '#') text := rfl
    rw [List.cons_append, hskip, List.append_assoc, skipGap_comment hbody hend, ih hrest,
      Position.after_cons, Position.after_append]

/-- Every text begins with a gap that ends where the text does, or before what begins none; and from
inside a comment every text goes on with the rest of the comment and such a gap. -/
theorem exists_gap (text : List Char) :
    (∃ gap rest, text = gap ++ rest ∧ Gap gap rest ∧ EndsGap rest) ∧
    ∃ body gap rest, text = body ++ (gap ++ rest) ∧ '\n' ∉ body ∧
      (∀ c ∈ (gap ++ rest).head?, c = '\n') ∧ Gap gap rest ∧ EndsGap rest := by
  induction text with
  | nil =>
    have hend : EndsGap [] := fun _ hc => nomatch hc
    refine ⟨⟨[], [], rfl, .nil, hend⟩, [], [], [], rfl, List.not_mem_nil, ?_, .nil, hend⟩
    intro _ hc
    contradiction
  | cons c text ih =>
    obtain ⟨⟨gap, rest, htext, hgap, hrest⟩, body, gap', rest', htext', hbody, hhead, hgap', hrest'⟩ :=
      ih
    have hopen : ∃ gap rest, c :: text = gap ++ rest ∧ Gap gap rest ∧ EndsGap rest := by
      by_cases hblank : Text.isBlank c = true
      · exact ⟨c :: gap, rest, by rw [htext, List.cons_append], .blank hblank hgap, hrest⟩
      · by_cases hcomment : c = '#'
        · obtain rfl := hcomment
          refine ⟨'#' :: (body ++ gap'), rest', ?_, .comment hbody hhead hgap', hrest'⟩
          rw [htext', List.cons_append, List.append_assoc]
        · refine ⟨[], c :: text, rfl, .nil, fun d hd => ?_⟩
          obtain rfl := Option.some.inj hd
          exact ⟨Bool.eq_false_iff.mpr hblank, hcomment⟩
    refine ⟨hopen, ?_⟩
    by_cases hline : c = '\n'
    · obtain ⟨gap, rest, heq, hgap, hrest⟩ := hopen
      refine ⟨[], gap, rest, heq, List.not_mem_nil, fun d hd => ?_, hgap, hrest⟩
      rw [← heq] at hd
      rw [← Option.some.inj hd, hline]
    · refine ⟨c :: body, gap', rest', by rw [htext', List.cons_append], ?_, hhead, hgap', hrest'⟩
      exact List.not_mem_cons_of_ne_of_not_mem (Ne.symm hline) hbody

/-! ### Words -/

/-- The characters of a longest run are taken, and the others are left. -/
theorem Run.span {word rest : List Char} (run : Run word rest) :
    (word ++ rest).takeWhile isWordContinue = word ∧
      (word ++ rest).dropWhile isWordContinue = rest :=
  takeWhile_dropWhile_append run.inside run.behind

/-- A text that begins with a word begins with a longest run. -/
theorem exists_run {c : Char} (text : List Char) (hc : isWordStart c = true) :
    ∃ word rest, c :: text = word ++ rest ∧ Run word rest := by
  have hcontinue : isWordContinue c = true := by rw [isWordContinue, hc, Bool.true_or]
  refine ⟨(c :: text).takeWhile isWordContinue, (c :: text).dropWhile isWordContinue, ?_, ?_, ?_, ?_⟩
  · exact List.takeWhile_append_dropWhile.symm
  · rw [List.takeWhile_cons_of_pos hcontinue]
    exact ⟨c, _, rfl, hc⟩
  · exact List.all_eq_true.mp List.all_takeWhile
  · exact head?_dropWhile_eq_false (c :: text)

/-- The reserved word that is found is the one that is spelled. -/
theorem ofText?_eq_some_iff (word : List Char) (k : Keyword) :
    Keyword.ofText? (String.ofList word) = some k ↔ k.text.toList = word := by
  constructor
  · intro h
    unfold Keyword.ofText? at h
    have hk : k.text = String.ofList word := by simpa using List.find?_some h
    rw [hk, String.toList_ofList]
  · rintro rfl
    rw [String.ofList_toList, Keyword.ofText?_text]

/-- No reserved word begins with a digit. -/
theorem head?_isDigit_keyword (k : Keyword) : k.text.toList.head?.any Char.isDigit = false := by
  cases k <;> decide

/-- Reading a word finds what it means. -/
theorem readWord_of_means {word : List Char} {content : TokenContent} (h : Means word content)
    (place : Location) : readWord place word = .ok content := by
  cases h with
  | keyword k =>
    simp only [readWord, head?_isDigit_keyword, Bool.false_eq_true, if_false, String.ofList_toList,
      Keyword.ofText?_text]
  | identifier first free =>
    have hfree : Keyword.ofText? (String.ofList word) = none := by
      cases hk : Keyword.ofText? (String.ofList word) with
      | none => rfl
      | some k => exact absurd ((ofText?_eq_some_iff word k).mp hk) (free k)
    simp only [readWord, first, Bool.false_eq_true, if_false, hfree]
  | @number _ n x spelled finite =>
    simp only [readWord, spelled.head?_isDigit, if_true, (Numeral.read?_eq_some_iff word n).mpr spelled,
      finite]

/-- A word means something, or begins with a digit and spells no number, or none that is finite. -/
theorem means_or_not (word : List Char) : (∃ content, Means word content) ∨
    word.head?.any Char.isDigit = true ∧
      ((∀ n, ¬Numeral.Spells word n) ∨ ∃ n, Numeral.Spells word n ∧ n.value? = none) := by
  by_cases hdigit : word.head?.any Char.isDigit = true
  · cases hread : Numeral.read? word with
    | none =>
      refine .inr ⟨hdigit, .inl fun n hn => ?_⟩
      rw [← Numeral.read?_eq_some_iff, hread] at hn
      contradiction
    | some n =>
      have hspells := (Numeral.read?_eq_some_iff word n).mp hread
      cases hvalue : n.value? with
      | none => exact .inr ⟨hdigit, .inr ⟨n, hspells, hvalue⟩⟩
      | some x => exact .inl ⟨_, .number hspells hvalue⟩
  · rw [Bool.not_eq_true] at hdigit
    by_cases hkeyword : ∃ k : Keyword, k.text.toList = word
    · obtain ⟨k, rfl⟩ := hkeyword
      exact .inl ⟨_, .keyword k⟩
    · exact .inl ⟨_, .identifier hdigit (not_exists.mp hkeyword)⟩

/-! ### Lexemes and mistakes -/

/-- A mark is read as itself. -/
theorem readMark?_punctuation (m : Punctuation) : readMark? m.char = some (.punctuation m) := by
  rw [readMark?, Punctuation.ofChar?_char]

/-- So is an operator. -/
theorem readMark?_operator (o : Operator) : readMark? o.char = some (.operator o) := by
  have hnone : Punctuation.ofChar? o.char = none := by cases o <;> decide
  rw [readMark?, hnone, Operator.ofChar?_char, Option.map_some]

/-- No other character is read as anything. -/
theorem readMark?_eq_none {c : Char} (hpunctuation : ∀ m : Punctuation, m.char ≠ c)
    (hoperator : ∀ o : Operator, o.char ≠ c) : readMark? c = none := by
  have hmark : Punctuation.ofChar? c = none := by
    rw [Punctuation.ofChar?, List.find?_eq_none]
    intro m _ hm
    exact hpunctuation m (beq_iff_eq.mp hm)
  have hsymbol : Operator.ofChar? c = none := by
    rw [Operator.ofChar?, List.find?_eq_none]
    intro o _ ho
    exact hoperator o (beq_iff_eq.mp ho)
  rw [readMark?, hmark, hsymbol, Option.map_none]

/-- A character that is read as something by itself is no word, no blank and no comment. -/
theorem readToken_mark {c : Char} {content : TokenContent} (hmark : readMark? c = some content)
    (hword : isWordStart c = false) (filename : String) (rest : List Char) (p : Position) :
    readToken filename c rest p =
      .token ⟨content, String.ofList [c], p.locate filename⟩ ⟨rest, p.next c⟩ := by
  have hspelling : c.toString = String.ofList [c] := String.singleton_eq_ofList
  simp only [readToken, hword, Bool.false_eq_true, if_false, hmark, hspelling]

/-- A lexeme is read as a token, and begins no gap. -/
theorem Lexeme.readToken {lexeme rest : List Char} {content : TokenContent}
    (h : Lexeme lexeme rest content) : ∃ c tail, lexeme = c :: tail ∧
      (Text.isBlank c = false ∧ c ≠ '#') ∧ ∀ filename p, Lexer.readToken filename c (tail ++ rest) p =
        .token ⟨content, String.ofList lexeme, p.locate filename⟩ ⟨rest, p.after lexeme⟩ := by
  cases h with
  | punctuation m =>
    refine ⟨m.char, [], rfl, by cases m <;> decide, fun filename p => ?_⟩
    exact readToken_mark (readMark?_punctuation m) (by cases m <;> decide) filename rest p
  | operator o =>
    refine ⟨o.char, [], rfl, by cases o <;> decide, fun filename p => ?_⟩
    exact readToken_mark (readMark?_operator o) (by cases o <;> decide) filename rest p
  | word run means =>
    obtain ⟨c, tail, rfl, hc⟩ := run.start
    refine ⟨c, tail, rfl, isBlank_of_isWordStart hc, fun filename p => ?_⟩
    obtain ⟨htake, hdrop⟩ := run.span
    rw [List.cons_append] at htake hdrop
    simp only [Lexer.readToken, hc, if_true, htake, hdrop, readWord_of_means means]

/-- At a mistake the lexer stops, and it begins no gap. -/
theorem Mistake.readToken {filename : String} {p : Position} {text : List Char} {e : LexicalError}
    (h : Mistake (p.locate filename) text e) : ∃ c tail, text = c :: tail ∧
      (Text.isBlank c = false ∧ c ≠ '#') ∧
        ∃ after, Lexer.readToken filename c tail p = .failure e after := by
  cases h with
  | @character c rest hblank hcomment hword hpunctuation hoperator =>
    refine ⟨c, rest, rfl, ⟨hblank, hcomment⟩, ⟨c :: rest, p⟩, ?_⟩
    simp only [Lexer.readToken, hword, Bool.false_eq_true, if_false,
      readMark?_eq_none hpunctuation hoperator]
  | @malformed word rest run first hspells =>
    obtain ⟨c, tail, rfl, hc⟩ := run.start
    refine ⟨c, tail ++ rest, rfl, isBlank_of_isWordStart hc, ⟨rest, p.after (c :: tail)⟩, ?_⟩
    have hread := Numeral.read?_eq_none hspells
    obtain ⟨htake, hdrop⟩ := run.span
    rw [List.cons_append] at htake hdrop
    simp only [Lexer.readToken, hc, if_true, htake, hdrop, readWord, first, hread]
  | @overflow word rest n run spelled large =>
    obtain ⟨c, tail, rfl, hc⟩ := run.start
    refine ⟨c, tail ++ rest, rfl, isBlank_of_isWordStart hc, ⟨rest, p.after (c :: tail)⟩, ?_⟩
    obtain ⟨htake, hdrop⟩ := run.span
    rw [List.cons_append] at htake hdrop
    simp only [Lexer.readToken, hc, if_true, htake, hdrop, readWord, spelled.head?_isDigit,
      (Numeral.read?_eq_some_iff _ n).mpr spelled, large]

/-- A text that does not end and begins with no gap begins with a lexeme or with a mistake. -/
theorem lexeme_or_mistake {c : Char} {text : List Char} (hgap : EndsGap (c :: text))
    (place : Location) :
    (∃ lexeme rest content, c :: text = lexeme ++ rest ∧ Lexeme lexeme rest content) ∨
      ∃ e, Mistake place (c :: text) e := by
  by_cases hword : isWordStart c = true
  · obtain ⟨word, rest, htext, run⟩ := exists_run text hword
    rcases means_or_not word with ⟨content, hmeans⟩ | ⟨hdigit, hspells | ⟨n, hspells, hlarge⟩⟩
    · exact .inl ⟨word, rest, content, htext, .word run hmeans⟩
    · right
      rw [htext]
      exact ⟨_, .malformed run hdigit hspells⟩
    · right
      rw [htext]
      exact ⟨_, .overflow run hspells hlarge⟩
  · rw [Bool.not_eq_true] at hword
    obtain ⟨hblank, hcomment⟩ := hgap c rfl
    by_cases hpunctuation : ∃ m : Punctuation, m.char = c
    · obtain ⟨m, rfl⟩ := hpunctuation
      exact .inl ⟨[m.char], text, _, rfl, .punctuation m text⟩
    · by_cases hoperator : ∃ o : Operator, o.char = c
      · obtain ⟨o, rfl⟩ := hoperator
        exact .inl ⟨[o.char], text, _, rfl, .operator o text⟩
      · exact .inr ⟨_, .character hblank hcomment hword (not_exists.mp hpunctuation)
          (not_exists.mp hoperator)⟩

end Lexer

end Formulary
