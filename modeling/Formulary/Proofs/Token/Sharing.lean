import Formulary.Proofs.Token.Segmentation
import Formulary.Token.Session

/-!
# A lexer that is shared

However many readers move the cursor of a session, and in whatever order, and whatever mistakes they
meet, the cursor stands between two pieces of the segmentation of the text or where the segmentation
stops (`OnWay`). One step of the lexer leads from such a place to such a place and gives a token of
the segmentation, if it gives one; going back to the beginning does so as well. So nothing that a
reader does can put another one inside a word, or make it see a token that is none.
-/

namespace Formulary.Lexer

open Piece

/-! ### Places on the way -/

/-- A cut between two texts lies inside a word. -/
def SplitsWord (before behind : List Char) : Prop :=
  (∃ c ∈ before.getLast?, isWordContinue c = true) ∧ ∃ c ∈ behind.head?, isWordContinue c = true

/-- A cursor stands in a text where its position says: the offset counts the characters before it, the
line the line feeds among them, and the column the characters behind the last of those; and it does not
stand inside a word. -/
structure Cursor.Placed (source : List Char) (c : Cursor) : Prop where
  inside : c.position.offset ≤ source.length
  rest : c.rest = source.drop c.position.offset
  line : c.position.line = 1 + (source.take c.position.offset).count '\n'
  column : c.position.column =
    1 + ((source.take c.position.offset).reverse.takeWhile (· != '\n')).length
  word : ¬ SplitsWord (source.take c.position.offset) c.rest

/-- The cursor behind a piece of a text is placed, if it is not inside a word. -/
theorem Cursor.placed_after {before rest : List Char} (h : ¬ SplitsWord before rest) :
    Cursor.Placed (before ++ rest) ⟨rest, ({} : Position).after before⟩ := by
  have hoffset : (({} : Position).after before).offset = before.length := by
    rw [Position.offset_after, Nat.zero_add]
  have htake : (before ++ rest).take (({} : Position).after before).offset = before := by
    rw [hoffset, List.take_left]
  constructor
  · simp [hoffset]
  · rw [hoffset, List.drop_left]
  · rw [htake, Position.line_after]
  · rw [htake, Position.column_after]
  · rwa [htake]

/-- Behind a piece no word goes on. -/
theorem Passable.not_splitsWord {text rest : List Char} {content : Option TokenContent}
    (h : Passable text rest content) (before : List Char) : ¬ SplitsWord (before ++ text) rest := by
  have hrun (run : Run text rest) : ¬ SplitsWord (before ++ text) rest := by
    rintro ⟨_, c, hc, hcontinue⟩
    rw [run.behind c hc] at hcontinue
    contradiction
  cases h with
  | malformed run _ _ => exact hrun run
  | lexeme h =>
    cases h with
    | word run _ => exact hrun run
    | punctuation m =>
      have hmark : isWordContinue m.char = false := by cases m <;> decide
      simp [SplitsWord, hmark]
    | operator o =>
      have hmark : isWordContinue o.char = false := by cases o <;> decide
      simp [SplitsWord, hmark]

/-- No word goes on with a blank. -/
theorem isWordContinue_of_isBlank {c : Char} (h : Text.isBlank c = true) :
    isWordContinue c = false := by
  rw [isWordContinue, Bool.or_eq_false_iff]
  constructor
  · by_contra hstart
    rw [Bool.not_eq_false] at hstart
    rw [(isBlank_of_isWordStart hstart).1] at h
    contradiction
  · rw [beq_eq_false_iff_ne]
    rintro rfl
    contradiction

/-- A gap in front of something ends with a blank: a comment would not have ended there. -/
theorem Gap.getLast?_isBlank {gap rest : List Char} (h : Gap gap rest) (hends : EndsGap rest)
    (hrest : rest ≠ []) : ∀ c ∈ gap.getLast?, Text.isBlank c = true := by
  induction h with
  | nil => simp
  | @blank c gap rest hc _ ih =>
    cases gap with
    | nil => simpa using hc
    | cons d gap =>
      rw [List.getLast?_cons_cons]
      exact ih hends hrest
  | @comment body gap rest _ hend _ ih =>
    cases gap with
    | nil =>
      obtain ⟨d, more, rfl⟩ := List.exists_cons_of_ne_nil hrest
      obtain rfl := hend d rfl
      have hline := (hends '\n' rfl).1
      contradiction
    | cons d gap =>
      rw [← List.cons_append, List.getLast?_append_of_ne_nil _ (List.cons_ne_nil d gap)]
      exact ih hends hrest

/-- If no word goes on before a gap, then none does behind it. -/
theorem Gap.not_splitsWord {gap rest before : List Char} (h : Gap gap rest) (hends : EndsGap rest)
    (hbefore : ¬ SplitsWord before (gap ++ rest)) : ¬ SplitsWord (before ++ gap) rest := by
  rcases List.eq_nil_or_concat gap with rfl | ⟨others, d, rfl⟩
  · rwa [List.append_nil]
  · rintro ⟨⟨c, hc, hcontinue⟩, e, he, _⟩
    rw [List.concat_eq_append, ← List.append_assoc, List.getLast?_concat] at hc
    obtain rfl := Option.some.inj hc
    have hrest : rest ≠ [] := by
      rintro rfl
      contradiction
    have hblank := h.getLast?_isBlank hends hrest d (by simp)
    rw [isWordContinue_of_isBlank hblank] at hcontinue
    contradiction

namespace Segmentation

variable (g : Segmentation)

/-- A cursor between two pieces of a segmentation, or where it stops. -/
inductive OnWay : Cursor → Prop where
  | between {passed left : List Piece} (h : g.pieces = passed ++ left) :
    OnWay ⟨join left (g.gap ++ g.rest), ({} : Position).after (join passed [])⟩
  | stopped : OnWay ⟨g.rest, ({} : Position).after (join g.pieces g.gap)⟩

variable {g} {source : List Char}

/-- At the beginning of a text no piece is passed. -/
theorem Of.onWay_start (h : g.Of source) : g.OnWay { rest := source } := by
  have hstart := OnWay.between (List.nil_append g.pieces).symm
  rwa [h.joined] at hstart

/-- Between two pieces no word goes on. -/
theorem Of.not_splitsWord (h : g.Of source) {passed left : List Piece}
    (hpieces : g.pieces = passed ++ left) :
    ¬ SplitsWord (join passed []) (join left (g.gap ++ g.rest)) := by
  rcases List.eq_nil_or_concat passed with rfl | ⟨others, q, rfl⟩
  · simp [SplitsWord, join]
  · have hcut := h.cut
    rw [hpieces, List.concat_eq_append, List.append_assoc] at hcut
    cases hcut.of_append with
    | cons _ passable _ =>
      rw [List.concat_eq_append, join_concat, ← List.append_assoc]
      exact passable.not_splitsWord _

/-- The text is that of the pieces before and behind a place between two of them. -/
theorem Of.joined_between (h : g.Of source) {passed left : List Piece}
    (hpieces : g.pieces = passed ++ left) :
    source = join passed [] ++ join left (g.gap ++ g.rest) := by
  rw [← join_append, List.nil_append, ← join_append_pieces, ← hpieces, h.joined]

/-- Every cursor on the way is placed in the text. -/
theorem OnWay.placed {c : Cursor} (hc : g.OnWay c) (h : g.Of source) : c.Placed source := by
  cases hc with
  | between hpieces =>
    rw [h.joined_between hpieces]
    exact Cursor.placed_after (h.not_splitsWord hpieces)
  | stopped =>
    have hall := (List.append_nil g.pieces).symm
    have hword := h.last.not_splitsWord h.stops.endsGap (h.not_splitsWord hall)
    rw [h.joined_between hall, join, ← List.append_assoc]
    rw [← join_append, List.nil_append] at hword ⊢
    exact Cursor.placed_after hword

end Segmentation

/-! ### Readings -/

/-- Where a mistake leaves the cursor. A character that begins nothing stays in front of it, so that
it is found again; behind a run that spells no number it goes on. -/
inductive Leaves (source : List Char) (filename : String) : LexicalError → Cursor → Prop where
  | character {c : Char} {place : Option Location} {after : Cursor}
    (again : next filename after = .failure (.invalidCharacter c place) after) :
    Leaves source filename (.invalidCharacter c place) after
  | number {before word rest : List Char} {overflow : Bool} (run : Run word rest)
    (joined : source = before ++ (word ++ rest)) :
    Leaves source filename
      (.invalidNumber (String.ofList word) overflow (some (.behind filename before)))
      ⟨rest, ({} : Position).after (before ++ word)⟩

namespace Segmentation

/-- A reading stays on the way and gives no token but those of the segmentation. -/
inductive Keeps (g : Segmentation) (source : List Char) (filename : String) : Reading → Prop where
  | done {after : Cursor} (onWay : g.OnWay after) : Keeps g source filename (.done after)
  | token {t : Token} {after : Cursor} (ht : t ∈ g.tokens filename) (onWay : g.OnWay after) :
    Keeps g source filename (.token t after)
  | failure {e : LexicalError} {after : Cursor} (leaves : Leaves source filename e after)
    (onWay : g.OnWay after) : Keeps g source filename (.failure e after)

variable {g : Segmentation} {source : List Char} (h : g.Of source) (filename : String)

include h

/-- In front of a piece the lexer goes on behind it. -/
theorem keeps_piece {passed left : List Piece} {q : Piece}
    (hpieces : g.pieces = passed ++ q :: left) :
    g.Keeps source filename (next filename
      ⟨join (q :: left) (g.gap ++ g.rest), ({} : Position).after (join passed [])⟩) := by
  have hcut := h.cut
  rw [hpieces] at hcut
  cases hcut.of_append with
  | cons gap passable _ =>
    have hread := next_passable gap passable filename (({} : Position).after (join passed []))
    have onWay : g.OnWay ⟨join left (g.gap ++ g.rest),
        ({} : Position).after (join passed [] ++ (q.gap ++ q.text))⟩ := by
      rw [← join_concat]
      apply OnWay.between
      rw [hpieces, List.append_assoc, List.singleton_append]
    simp only [← Position.after_append, Position.locate_after, List.append_assoc] at hread
    rw [join]
    cases hcontent : q.content with
    | some content =>
      rw [hcontent] at hread
      rw [hread]
      have hmem := mem_tokens hcontent filename passed left []
      rw [← hpieces] at hmem
      exact .token hmem onWay
    | none =>
      rw [hcontent] at hread passable
      obtain ⟨overflow, hread⟩ := hread
      rw [hread]
      refine .failure ?_ onWay
      cases passable with
      | malformed run _ _ =>
        have hjoined := h.joined_between hpieces
        rw [join, ← List.append_assoc] at hjoined
        rw [← List.append_assoc]
        exact .number run hjoined

/-- Where the segmentation stops the lexer stays. -/
theorem keeps_stop {r : Reading}
    (hr : Reading.OfStop filename (({} : Position).after (join g.pieces g.gap)) g.rest r) :
    g.Keeps source filename r := by
  have onWay : g.OnWay ⟨g.rest, _⟩ := .stopped
  have again := next_stop .nil h.stops filename (({} : Position).after (join g.pieces g.gap))
  cases hrest : g.rest with
  | nil =>
    rw [hrest] at hr onWay
    rw [hr]
    exact .done onWay
  | cons c rest =>
    rw [hrest] at hr onWay again
    rw [hr]
    exact .failure (.character again) onWay

/-- From every place on the way the lexer goes on along it. -/
theorem keeps_next {c : Cursor} (hc : g.OnWay c) : g.Keeps source filename (next filename c) := by
  cases hc with
  | @between passed left hpieces =>
    cases left with
    | cons q left => exact keeps_piece h filename hpieces
    | nil =>
      rw [List.append_nil] at hpieces
      have hread := next_stop h.last h.stops filename (({} : Position).after (join passed []))
      rw [← hpieces, ← Position.after_append, ← join_append] at hread
      rw [← hpieces]
      exact keeps_stop h filename hread
  | stopped => exact keeps_stop h filename (next_stop .nil h.stops filename _)

/-- So it does when it reads all tokens. -/
theorem keeps_readAll (steps : Nat) {read : List Token} {c : Cursor} (hc : g.OnWay c)
    (hread : ∀ t ∈ read, t ∈ g.tokens filename) :
    match readAll filename steps read c with
    | (.ok ts, after) => (∀ t ∈ ts, t ∈ g.tokens filename) ∧ g.OnWay after
    | (.error e, after) => Leaves source filename e after ∧ g.OnWay after := by
  induction steps generalizing read c with
  | zero => exact ⟨fun t ht => hread t (List.mem_reverse.mp ht), hc⟩
  | succ steps ih =>
    have hkeeps := keeps_next h filename hc
    rw [readAll]
    generalize next filename c = r at hkeeps
    cases hkeeps with
    | done onWay => exact ⟨fun t ht => hread t (List.mem_reverse.mp ht), onWay⟩
    | token ht onWay => exact ih onWay (List.forall_mem_cons.mpr ⟨ht, hread⟩)
    | failure leaves onWay => exact ⟨leaves, onWay⟩

end Segmentation

/-! ### Sessions -/

/-- The tokens in an answer. -/
def Answer.listed : Answer → List Token
  | .token t => t.toList
  | .tokens ts => ts
  | _ => []

/-- The mistake in an answer. -/
def Answer.mistake? : Answer → Option LexicalError
  | .failure e => some e
  | _ => none

namespace Session

/-- Carry out commands one after the other. -/
def run (s : Session) : List Command → List Answer × Session
  | [] => ([], s)
  | command :: more =>
    let (answer, after) := s.step command
    let (answers, last) := after.run more
    (answer :: answers, last)

/-- A session on a text whose cursor is on the way. -/
structure OnWay (g : Segmentation) (source : List Char) (filename : String) (s : Session) :
    Prop where
  named : s.filename = filename
  text : s.source = source
  cursor : g.OnWay s.cursor

/-- An answer of a session, and the session after it: it stays on the way, gives no tokens but those
of the segmentation, and is left by a mistake as the mistake says. -/
structure Answers (g : Segmentation) (source : List Char) (filename : String) (answer : Answer)
    (after : Session) : Prop extends after.OnWay g source filename where
  tokens : ∀ t ∈ answer.listed, t ∈ g.tokens filename
  mistake : ∀ e ∈ answer.mistake?, Leaves source filename e after.cursor

section

variable {g : Segmentation} {source : List Char} {filename : String} (h : g.Of source) {s : Session}

/-- The stages of iterators have nothing to do with it. -/
theorem Answers.mark {answer : Answer} (ha : Answers g source filename answer s) (index : Nat)
    (stage : Stage) : Answers g source filename answer (s.mark index stage) :=
  ⟨⟨ha.named, ha.text, ha.cursor⟩, ha.tokens, ha.mistake⟩

/-- An answer without tokens and mistakes may come with any session on the way. -/
theorem OnWay.answers {answer : Answer} (hs : s.OnWay g source filename)
    (htokens : answer.listed = []) (hmistake : answer.mistake? = none) :
    Answers g source filename answer s where
  toOnWay := hs
  tokens := by simp [htokens]
  mistake := by simp [hmistake]

include h

/-- Back at the beginning of the text a session is on the way. -/
theorem OnWay.rewind (hs : s.OnWay g source filename) : s.rewind.OnWay g source filename where
  named := hs.named
  text := hs.text
  cursor := by
    rw [Session.rewind, hs.text]
    exact h.onWay_start

/-- Reading a token. -/
theorem OnWay.readNext (hs : s.OnWay g source filename) :
    Answers g source filename s.readNext.1 s.readNext.2 := by
  obtain ⟨rfl, rfl, hcursor⟩ := hs
  have hkeeps := Segmentation.keeps_next h s.filename hcursor
  have hway {after : Cursor} (hafter : g.OnWay after) :
      OnWay g s.source s.filename { s with cursor := after } := ⟨rfl, rfl, hafter⟩
  unfold Session.readNext
  generalize next s.filename s.cursor = r at hkeeps
  cases hkeeps with
  | done onWay => exact (hway onWay).answers rfl rfl
  | token ht onWay =>
    refine ⟨hway onWay, ?_, by simp [Answer.mistake?]⟩
    simpa [Answer.listed] using ht
  | failure leaves onWay =>
    refine ⟨hway onWay, List.forall_mem_nil _, ?_⟩
    simpa [Answer.mistake?] using leaves

/-- Asking an iterator. -/
theorem OnWay.advance (hs : s.OnWay g source filename) (index : Nat) :
    Answers g source filename (s.advance index).1 (s.advance index).2 := by
  unfold Session.advance
  split
  · exact hs.answers rfl rfl
  · exact hs.answers rfl rfl
  · next stage _ _ =>
    have hstart : OnWay g source filename (if stage = .created then s.rewind else s) := by
      split
      · exact hs.rewind h
      · exact hs
    have hanswers := hstart.readNext h
    simp only
    generalize (if stage = .created then s.rewind else s).readNext = r at hanswers
    split
    · exact hanswers.mark index .running
    · exact hanswers.mark index .finished

/-- Reading all tokens from the beginning. -/
theorem OnWay.tokenize (hs : s.OnWay g source filename) :
    Answers g source filename (s.step .tokenize).1 (s.step .tokenize).2 := by
  have hkeeps := Segmentation.keeps_readAll h s.filename (s.rewind.cursor.rest.length + 1)
    (hs.rewind h).cursor (List.forall_mem_nil _)
  unfold Session.step tokensFrom
  simp only
  generalize readAll s.filename (s.rewind.cursor.rest.length + 1) [] s.rewind.cursor = r at hkeeps
  rw [hs.named] at hkeeps
  obtain ⟨e | ts, after⟩ := r
  · refine ⟨⟨hs.named, hs.text, hkeeps.2⟩, List.forall_mem_nil _, ?_⟩
    simpa [Answer.mistake?] using hkeeps.1
  · exact ⟨⟨hs.named, hs.text, hkeeps.2⟩, hkeeps.1, by simp [Answer.mistake?]⟩

/-- One command. -/
theorem OnWay.step (hs : s.OnWay g source filename) (command : Command) :
    Answers g source filename (s.step command).1 (s.step command).2 := by
  cases command with
  | next => exact hs.readNext h
  | tokenize => exact hs.tokenize h
  | reset => exact (hs.rewind h).answers rfl rfl
  | iterate =>
    have hway : OnWay g source filename { s with iterators := s.iterators ++ [.created] } :=
      ⟨hs.named, hs.text, hs.cursor⟩
    exact hway.answers rfl rfl
  | advance index => exact hs.advance h index

/-- Any commands. -/
theorem OnWay.run (hs : s.OnWay g source filename) (commands : List Command) :
    (∀ answer ∈ (s.run commands).1, ∀ t ∈ answer.listed, t ∈ g.tokens filename) ∧
      (s.run commands).2.OnWay g source filename := by
  induction commands generalizing s with
  | nil => exact ⟨List.forall_mem_nil _, hs⟩
  | cons command more ih =>
    have hstep := hs.step h command
    obtain ⟨hmore, hlast⟩ := ih hstep.toOnWay
    rw [Session.run]
    exact ⟨List.forall_mem_cons.mpr ⟨hstep.tokens, hmore⟩, hlast⟩

end

/-- What holds of a session on a text, at any time: its cursor is placed in the text, it reads all
tokens as a fresh session does, and a mistake that it answers leaves it as it should. -/
structure Sound (source filename : String) (s : Session) : Prop where
  /-- The cursor stands where its position says, and not inside a word. -/
  placed : s.cursor.Placed source.toList
  /-- All tokens are read as if nothing had been read before. -/
  fresh : (s.step .tokenize).1 = ((start source filename).step .tokenize).1
  /-- A character that begins nothing is found again, at its place, and nothing changes. -/
  character : ∀ command c place after,
    s.step command = (.failure (.invalidCharacter c place), after) →
    after.step .next = (.failure (.invalidCharacter c place), after)
  /-- A run that spells no number has been passed over. -/
  number : ∀ command text overflow place after,
    s.step command = (.failure (.invalidNumber text overflow place), after) →
    ∃ before rest, source.toList = before ++ (text.toList ++ rest) ∧ Run text.toList rest ∧
      place = some (.behind filename before) ∧
      after.cursor = ⟨rest, ({} : Position).after (before ++ text.toList)⟩

/-- What tokenizing answers depends on the text and its name alone. -/
theorem step_tokenize (s : Session) : (s.step .tokenize).1 =
    match (tokensFrom s.filename { rest := s.source }).1 with
    | .ok ts => .tokens ts
    | .error e => .failure e := by
  unfold step rewind
  simp only
  cases tokensFrom s.filename { rest := s.source } with
  | mk result after => cases result <;> rfl

/-- A session on the way is sound. -/
theorem OnWay.sound {source filename : String} {g : Segmentation} (h : g.Of source.toList)
    {s : Session} (hs : s.OnWay g source.toList filename) : s.Sound source filename where
  placed := hs.cursor.placed h
  fresh := by
    rw [step_tokenize, step_tokenize, hs.named, hs.text]
    rfl
  character command c place after hstep := by
    have hanswers := hs.step h command
    rw [hstep] at hanswers
    cases hanswers.mistake _ rfl with
    | character again =>
      rw [← hanswers.named] at again
      simp only [Session.step, Session.readNext, again]
  number command text overflow place after hstep := by
    have hanswers := hs.step h command
    rw [hstep] at hanswers
    generalize hcursor : after.cursor = cursor
    have hleaves := hanswers.mistake _ rfl
    rw [hcursor] at hleaves
    cases hleaves with
    | @number before word rest _ run joined =>
      refine ⟨before, rest, ?_, ?_, rfl, ?_⟩
      · rwa [String.toList_ofList]
      · rwa [String.toList_ofList]
      · rw [String.toList_ofList]

/-- A shared lexer keeps to the segmentation of its text, whatever is asked of it, through however many
iterators, in whatever order, and whatever mistakes there are. The segmentation is the only one of the
text. Every token in any answer is one of it, with its place; and after any commands the session is
sound: its cursor stands in the text where its position says and not inside a word, all tokens are read
as by a fresh session, and a mistake leaves it in front of a character that begins nothing, where the
next reading finds the same mistake, or behind a run that spells no number. -/
theorem shared_lexer_keeps_segmentation (source filename : String) :
    ∃ g : Segmentation, g.Of source.toList ∧ (∀ g' : Segmentation, g'.Of source.toList → g' = g) ∧
      ∀ commands : List Command,
        (∀ answer ∈ ((start source filename).run commands).1,
          ∀ t ∈ answer.listed, t ∈ g.tokens filename) ∧
        ((start source filename).run commands).2.Sound source filename := by
  obtain ⟨g, h⟩ := Segmentation.exists_of source.toList
  have hstart : (start source filename).OnWay g source.toList filename := ⟨rfl, rfl, h.onWay_start⟩
  refine ⟨g, h, fun g' h' => h'.unique h, fun commands => ?_⟩
  obtain ⟨htokens, hlast⟩ := hstart.run h commands
  exact ⟨htokens, hlast.sound h⟩

end Session

end Formulary.Lexer
