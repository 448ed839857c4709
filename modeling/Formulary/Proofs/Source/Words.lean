import Formulary.Proofs.Number.Spelling
import Formulary.Token.Lexer
import Mathlib

/-!
# Texts and their tokens

`Lexes` says which contents the tokens of a text have, without the step count of the lexer, and
`Reads` says it of a piece of text whatever comes behind it. Only a word looks at what comes behind:
a character that goes on with a word must not. The rules for `Reads` put a text together from its
end to its beginning.
-/

namespace Formulary

/-- A name that the lexer can read: a letter or an underscore, then letters, digits, underscores and
points, and no reserved word. -/
structure IsName (name : String) : Prop where
  shape : ∃ c rest, name.toList = c :: rest ∧ (c.isAlpha || c == '_') = true ∧
    ∀ d ∈ rest, (d.isAlphanum || d == '_' || d == '.') = true
  free : Keyword.ofText? name = none

/-- A content that the lexer can read. -/
def TokenContent.IsProper : TokenContent → Prop
  | .identifier name => IsName name
  | .number value => Number.IsLiteral value
  | _ => True

namespace Lexer

/-- From a cursor to the end of the text there are tokens with the given contents. -/
inductive Lexes (filename : String) : Cursor → List TokenContent → Prop where
  | done {c after : Cursor} (h : next filename c = .done after) : Lexes filename c []
  | token {c after : Cursor} {t : Token} {words : List TokenContent}
      (h : next filename c = .token t after) (hrest : Lexes filename after words) :
      Lexes filename c (t.content :: words)

/-- A token takes a character at least. -/
theorem next_shortens {filename : String} {c after : Cursor} {t : Token}
    (h : next filename c = .token t after) : after.rest.length < c.rest.length := by
  have hgap := skipGap_rest_length false c.position c.rest
  unfold next at h
  split at h
  · contradiction
  · next first rest p hskip =>
    rw [hskip, List.length_cons] at hgap
    unfold readToken at h
    simp only at h
    split at h
    · next hstart =>
      split at h
      · cases h
        have hdrop := (List.dropWhile_sublist isWordContinue (l := rest)).length_le
        simp only [List.dropWhile_cons, isWordContinue, hstart, Bool.true_or, if_true]
        exact Nat.lt_of_le_of_lt hdrop hgap
      · contradiction
    · split at h
      · cases h
        exact hgap
      · contradiction

/-- There are no more tokens than characters. -/
theorem Lexes.length_le {filename : String} {c : Cursor} {words : List TokenContent}
    (h : Lexes filename c words) : words.length ≤ c.rest.length := by
  induction h with
  | done => exact Nat.zero_le _
  | token h _ ih => exact Nat.lt_of_le_of_lt ih (next_shortens h)

/-- The lexer finds the tokens of a text. -/
theorem Lexes.readAll {filename : String} {c : Cursor} {words : List TokenContent}
    (h : Lexes filename c words) {steps : Nat} (hsteps : words.length ≤ steps) (read : List Token) :
    ∃ ts, (Lexer.readAll filename steps read c).1 = .ok (read.reverse ++ ts) ∧
      ts.map Token.content = words := by
  induction h generalizing steps read with
  | done h =>
    refine ⟨[], ?_, rfl⟩
    cases steps with
    | zero => simp [Lexer.readAll]
    | succ steps => simp [Lexer.readAll, h]
  | @token c after t words h _ ih =>
    obtain ⟨steps, rfl⟩ := Nat.exists_eq_add_one_of_ne_zero (Nat.ne_zero_of_lt hsteps)
    obtain ⟨ts, hts, hwords⟩ := ih (Nat.le_of_succ_le_succ hsteps) (t :: read)
    refine ⟨t :: ts, ?_, by rw [List.map_cons, hwords]⟩
    rw [Lexer.readAll, h]
    simp only
    rw [hts, List.reverse_cons, List.append_assoc, List.singleton_append]

/-- A text of tokens with the given contents is read as such tokens. -/
theorem Lexes.tokenize {source filename : String} {words : List TokenContent}
    (h : Lexes filename { rest := source.toList } words) :
    ∃ ts, tokenize source filename = .ok ts ∧ ts.map Token.content = words :=
  h.readAll (Nat.le_succ_of_le h.length_le) []

/-! ### Pieces of text -/

/-- A text does not go on with a word. -/
def EndsWord (text : List Char) : Prop := ∀ c ∈ text.head?, isWordContinue c = false

/-- A piece of text has tokens with the given contents, whatever comes behind it that does not go on
with its last word. -/
def Reads (text : List Char) (words : List TokenContent) : Prop :=
  ∀ filename rest more, EndsWord rest → (∀ p, Lexes filename ⟨rest, p⟩ more) →
    ∀ p, Lexes filename ⟨text ++ rest, p⟩ (words ++ more)

section

variable {text text' : List Char} {words words' : List TokenContent}

/-- A word ends before a text that begins with another character. -/
theorem EndsWord.cons {c : Char} (h : isWordContinue c = false) : EndsWord (c :: text) := by
  intro d hd
  rw [← Option.some.inj hd, h]

/-- A word ends before two texts if it ends before either. -/
theorem EndsWord.append (h : EndsWord text) (h' : EndsWord text') : EndsWord (text ++ text') := by
  cases text with
  | nil => exact h'
  | cons c rest => exact .cons (h c rfl)

/-- No text has no tokens. -/
theorem Reads.nil : Reads [] [] := fun _ _ _ _ hmore => hmore

/-- Two pieces are read one after the other. -/
theorem Reads.append (h : Reads text words) (hend : EndsWord text') (h' : Reads text' words') :
    Reads (text ++ text') (words ++ words') := by
  intro filename rest more hrest hmore p
  rw [List.append_assoc, List.append_assoc]
  exact h filename _ _ (hend.append hrest) (h' filename rest more hrest hmore) p

/-- A blank stands for nothing. -/
theorem Reads.blank {c : Char} (hc : Text.isBlank c = true) (h : Reads text words) :
    Reads (c :: text) words := by
  intro filename rest more hrest hmore p
  have hnext : next filename ⟨c :: text ++ rest, p⟩ = next filename ⟨text ++ rest, p.next c⟩ := by
    simp only [next, List.cons_append, skipGap, hc, if_true]
  generalize hwords : words ++ more = all
  have htail := h filename rest more hrest hmore (p.next c)
  rw [hwords] at htail
  cases htail with
  | done hdone => exact .done (hnext.trans hdone)
  | token htoken hlexes => exact .token (hnext.trans htoken) hlexes

/-- A mark is a token by itself. -/
theorem Reads.mark {c : Char} {content : TokenContent} (hblank : Text.isBlank c = false)
    (hcomment : c ≠ '#') (hstart : isWordStart c = false) (hmark : readMark? c = some content)
    (h : Reads text words) : Reads (c :: text) (content :: words) := by
  intro filename rest more hrest hmore p
  have hnext : next filename ⟨c :: text ++ rest, p⟩ =
      .token ⟨content, c.toString, p.locate filename⟩ ⟨text ++ rest, p.next c⟩ := by
    simp only [next, List.cons_append, skipGap, hblank, Bool.false_eq_true, if_false, if_neg hcomment,
      readToken, hstart, hmark]
  exact .token hnext (h filename rest more hrest hmore _)

/-- The codes of the characters that start words. -/
theorem toNat_of_isWordStart {c : Char} (h : isWordStart c = true) :
    48 ≤ c.toNat ∧ c.toNat ≤ 57 ∨ 65 ≤ c.toNat ∧ c.toNat ≤ 90 ∨ c.toNat = 95 ∨
      97 ≤ c.toNat ∧ c.toNat ≤ 122 := by
  simp only [isWordStart, Char.isAlphanum, Char.isAlpha, Char.isUpper, Char.isLower, Char.isDigit,
    Bool.or_eq_true, Bool.and_eq_true, decide_eq_true_eq, beq_iff_eq, ge_iff_le,
    UInt32.le_iff_toNat_le] at h
  rcases h with ((h | h) | h) | rfl
  · exact .inr (.inl h)
  · exact .inr (.inr (.inr h))
  · exact .inl h
  · exact .inr (.inr (.inl rfl))

/-- A character that starts a word is neither blank nor the start of a comment. -/
theorem isBlank_of_isWordStart {c : Char} (h : isWordStart c = true) :
    Text.isBlank c = false ∧ c ≠ '#' := by
  have hcode := toNat_of_isWordStart h
  constructor
  · simp only [Text.isBlank, Bool.or_eq_false_iff, Bool.and_eq_false_iff, decide_eq_false_iff_not,
      beq_eq_false_iff_ne]
    omega
  · rintro rfl
    contradiction

/-- A word is a token if no character that goes on with a word comes behind it. -/
theorem Reads.word {w : List Char} {content : TokenContent} (hne : w ≠ [])
    (hstart : ∀ c ∈ w.head?, isWordStart c = true) (hcontinue : ∀ c ∈ w, isWordContinue c = true)
    (hread : ∀ location, readWord location w = .ok content) (hend : EndsWord text)
    (h : Reads text words) : Reads (w ++ text) (content :: words) := by
  intro filename rest more hrest hmore p
  obtain ⟨c, tail, rfl⟩ := List.exists_cons_of_ne_nil hne
  have hc := hstart c rfl
  obtain ⟨hblank, hcomment⟩ := isBlank_of_isWordStart hc
  have hbehind := hend.append hrest
  have htake : (c :: tail ++ (text ++ rest)).takeWhile isWordContinue = c :: tail := by
    rw [List.takeWhile_append_of_pos hcontinue]
    cases hcase : text ++ rest with
    | nil => simp
    | cons d more =>
      rw [List.takeWhile_cons_of_neg, List.append_nil]
      rw [hbehind d (by rw [hcase]; rfl)]
      exact Bool.false_ne_true
  have hdrop : (c :: tail ++ (text ++ rest)).dropWhile isWordContinue = text ++ rest := by
    rw [List.dropWhile_append_of_pos hcontinue]
    cases hcase : text ++ rest with
    | nil => rfl
    | cons d more =>
      rw [List.dropWhile_cons_of_neg]
      rw [hbehind d (by rw [hcase]; rfl)]
      exact Bool.false_ne_true
  have hnext : next filename ⟨c :: tail ++ (text ++ rest), p⟩ =
      .token ⟨content, String.ofList (c :: tail), p.locate filename⟩
        ⟨text ++ rest, p.after (c :: tail)⟩ := by
    simp only [List.cons_append] at htake hdrop
    simp only [next, List.cons_append, skipGap, hblank, Bool.false_eq_true, if_false, if_neg hcomment,
      readToken, hc, if_true, htake, hdrop, hread]
  rw [List.append_assoc]
  exact .token hnext (h filename rest more hrest hmore _)

/-- A letter or an underscore starts a word that is no number. -/
theorem isWordStart_of_isAlpha {c : Char} (h : (c.isAlpha || c == '_') = true) :
    isWordStart c = true ∧ c.isDigit = false := by
  constructor
  · rcases Bool.or_eq_true_iff.mp h with h | h
    · rw [isWordStart, Char.isAlphanum, h, Bool.true_or, Bool.true_or]
    · rw [isWordStart, h, Bool.or_true]
  · simp only [Char.isAlpha, Char.isUpper, Char.isLower, Bool.or_eq_true, Bool.and_eq_true,
      decide_eq_true_eq, beq_iff_eq, ge_iff_le, UInt32.le_iff_toNat_le] at h
    simp only [Char.isDigit, Bool.and_eq_false_iff, decide_eq_false_iff_not, ge_iff_le,
      UInt32.le_iff_toNat_le]
    rcases h with (⟨h, _⟩ | ⟨h, _⟩) | rfl
    · exact .inr (Nat.not_le.mpr (Nat.lt_of_lt_of_le (by decide) h))
    · exact .inr (Nat.not_le.mpr (Nat.lt_of_lt_of_le (by decide) h))
    · exact .inr (by decide)

/-- A name is a token. -/
theorem Reads.name {name : String} (hname : IsName name) (hend : EndsWord text)
    (h : Reads text words) : Reads (name.toList ++ text) (.identifier name :: words) := by
  obtain ⟨c, rest, hshape, hc, hrest⟩ := hname.shape
  obtain ⟨hstart, hdigit⟩ := isWordStart_of_isAlpha hc
  refine .word (by simp [hshape]) ?_ ?_ (fun location => ?_) hend h
  · rw [hshape]
    intro d hd
    rwa [← Option.some.inj hd]
  · rw [hshape]
    refine List.forall_mem_cons.mpr ⟨?_, hrest⟩
    rw [isWordContinue, hstart, Bool.true_or]
  · simp only [readWord, String.ofList_toList, hname.free]
    rw [hshape, List.head?_cons, Option.any_some, hdigit, if_neg Bool.false_ne_true]

/-- A reserved word is a token. -/
theorem Reads.keyword (k : Keyword) (hend : EndsWord text) (h : Reads text words) :
    Reads (k.text.toList ++ text) (.keyword k :: words) := by
  have hhead : k.text.toList.head?.all isWordStart = true := by cases k <;> decide
  have hall : k.text.toList.all isWordContinue = true := by cases k <;> decide
  refine .word ?_ ?_ (List.all_eq_true.mp hall) (fun location => ?_) hend h
  · cases k <;> decide
  · intro c hc
    exact (Option.all_eq_true _ _).mp hhead c hc
  · have hdigit : (k.text.toList.head?.any Char.isDigit) = false := by cases k <;> decide
    simp only [readWord, String.ofList_toList, Keyword.ofText?_text, hdigit, Bool.false_eq_true,
      if_false]

/-- A digit starts a word. -/
theorem isWordStart_of_isDigit {c : Char} (h : c.isDigit = true) : isWordStart c = true := by
  rw [isWordStart, Char.isAlphanum, h, Bool.or_true, Bool.true_or]

/-- Words go on with digits and points. -/
theorem isWordContinue_of_mem_point {whole fraction : List Char}
    (hdigits : ∀ c ∈ whole ++ fraction, c.isDigit = true) :
    ∀ c ∈ whole ++ '.' :: fraction, isWordContinue c = true := by
  intro c hc
  rw [isWordContinue, Bool.or_eq_true_iff]
  rcases List.mem_append.mp hc with hc | hc
  · exact .inl (isWordStart_of_isDigit (hdigits c (List.mem_append_left _ hc)))
  · rcases List.mem_cons.mp hc with rfl | hc
    · exact .inr rfl
    · exact .inl (isWordStart_of_isDigit (hdigits c (List.mem_append_right _ hc)))

/-- A printed number is a token. -/
theorem Reads.number {x : Float} (hx : Number.IsLiteral x) (hend : EndsWord text)
    (h : Reads text words) : Reads ((Number.plain x).toList ++ text) (.number x :: words) := by
  obtain ⟨whole, fraction, htext, hne, hdigits, hvalue⟩ := Numeral.plain_places hx
  obtain ⟨c, rest, rfl⟩ := List.exists_cons_of_ne_nil hne
  have hdigit : c.isDigit = true := hdigits c List.mem_cons_self
  have hcontinue := isWordContinue_of_mem_point hdigits
  rw [htext]
  refine .word (List.append_ne_nil_of_left_ne_nil hne _) ?_ hcontinue (fun location => ?_) hend h
  · intro d hd
    rw [← Option.some.inj hd]
    exact isWordStart_of_isDigit hdigit
  · have hread := Numeral.read?_point hne hdigits
    rw [List.cons_append] at hread ⊢
    simp only [readWord, List.head?_cons, Option.any_some, hdigit, if_true, hread, hvalue]

end

/-! ### What is read -/

/-- The content of a word is proper. -/
theorem isProper_of_readWord {location : Location} {c : Char} {rest : List Char}
    {content : TokenContent} (hc : isWordStart c = true) (hrest : ∀ d ∈ rest, isWordContinue d = true)
    (h : readWord location (c :: rest) = .ok content) : content.IsProper := by
  unfold readWord at h
  simp only at h
  split at h
  · split at h
    · contradiction
    · split at h
      · contradiction
      · next hvalue =>
        rw [← Except.ok.inj h]
        exact Numeral.isLiteral_of_value? hvalue
  · next hfirst =>
    have hdigit : c.isDigit = false := by simpa using hfirst
    split at h
    · rw [← Except.ok.inj h]
      trivial
    · next hfree =>
      rw [← Except.ok.inj h]
      refine ⟨⟨c, rest, String.toList_ofList, ?_, hrest⟩, hfree⟩
      simpa [isWordStart, Char.isAlphanum, hdigit] using hc

/-- The content of a token is proper. -/
theorem isProper_of_next {filename : String} {c after : Cursor} {t : Token}
    (h : next filename c = .token t after) : t.content.IsProper := by
  unfold next at h
  split at h
  · contradiction
  · next first rest p hskip =>
    unfold readToken at h
    simp only at h
    split at h
    · next hstart =>
      split at h
      · next content hword =>
        cases h
        have hfirst : isWordContinue first = true := by
          rw [isWordContinue, hstart, Bool.true_or]
        rw [List.takeWhile_cons_of_pos hfirst] at hword
        exact isProper_of_readWord hstart (List.all_eq_true.mp List.all_takeWhile) hword
      · contradiction
    · split at h
      · next content hmark =>
        cases h
        unfold readMark? at hmark
        split at hmark
        · rw [← Option.some.inj hmark]
          trivial
        · obtain ⟨o, _, ho⟩ := Option.map_eq_some_iff.mp hmark
          rw [← ho]
          trivial
      · contradiction

/-- The contents of all tokens that are read are proper. -/
theorem isProper_of_readAll {filename : String} {steps : Nat} {read ts : List Token} {c : Cursor}
    (hread : ∀ t ∈ read, t.content.IsProper) (h : (readAll filename steps read c).1 = .ok ts) :
    ∀ t ∈ ts, t.content.IsProper := by
  induction steps generalizing read c with
  | zero =>
    rw [← Except.ok.inj h]
    simpa using hread
  | succ steps ih =>
    rw [readAll] at h
    split at h
    · rw [← Except.ok.inj h]
      simpa using hread
    · contradiction
    · next hnext => exact ih (List.forall_mem_cons.mpr ⟨isProper_of_next hnext, hread⟩) h

/-- The contents of the tokens of a text are proper. -/
theorem isProper_of_tokenize {source filename : String} {ts : List Token}
    (h : tokenize source filename = .ok ts) : ∀ t ∈ ts, t.content.IsProper :=
  isProper_of_readAll (List.forall_mem_nil _) h

end Lexer

end Formulary
