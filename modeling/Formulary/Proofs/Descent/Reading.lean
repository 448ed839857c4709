import Formulary.Proofs.Descent.Ends
import Formulary.Proofs.Grammar.Phrase

/-!
# What descents read, and where they stop

Whatever the parser reads is derived by the grammar, and the tree it makes of it flattens to the
same tokens. Where it stops at a token that it cannot use, the tokens before that one still begin
some text of the grammar (`Stuck`); at each such place a completion is given. Both are shown in one
induction on the fuel, together with the bounds that the nesting limit puts on what was read.
-/

namespace Formulary

namespace SyntaxError

/-- The index of the token to blame. A parameter that is there already is blamed when it has been
taken, any other token before. -/
def index (e : SyntaxError) (after : Parser.Cursor) : Nat :=
  match e.cause with
  | .duplicateParameter _ _ => after.index - 1
  | _ => after.index

end SyntaxError

namespace Parser

open Descent

/-- A failure to read on: an error of nesting, or a token is to blame and the tokens before it are
the beginning of a text of the language. -/
def Stuck (language : List TokenContent → Prop) (c : Cursor) (e : SyntaxError) (after : Cursor) :
    Prop :=
  e.IsNesting ∨ ∃ front words more, front.index = e.index after ∧ e.token = front.current ∧
    c.Spells words front ∧ language (words ++ more)

section

variable {language part : List TokenContent → Prop} {a b after : Cursor} {e : SyntaxError}
  {words : List TokenContent}

/-- Stuck at the very place, with a completion. -/
theorem Stuck.here {cause : SyntaxCause} (h : a.Spells words b) (more : List TokenContent)
    (hmore : language (words ++ more)) (hindex : SyntaxError.index ⟨cause, b.current⟩ b = b.index) :
    Stuck language a ⟨cause, b.current⟩ b :=
  .inr ⟨b, words, more, hindex.symm, rfl, h, hmore⟩

/-- Stuck in a part: what stands before the part and what is to come after it complete it. -/
theorem Stuck.inside (h : a.Spells words b) (more : List TokenContent) (hstuck : Stuck part b e after)
    (hlanguage : ∀ inner, part inner → language (words ++ (inner ++ more))) :
    Stuck language a e after := by
  rcases hstuck with hnesting | ⟨front, inner, rest, hindex, htoken, hspells, hpart⟩
  · exact .inl hnesting
  · refine .inr ⟨front, words ++ inner, rest ++ more, hindex, htoken, h.trans hspells, ?_⟩
    have := hlanguage _ hpart
    simpa using this

end

/-- The tokens of some expression. -/
def IsPhrase (words : List TokenContent) : Prop := ∃ p : Phrase, p.spell true = words

/-- The tokens of some primary expression. -/
def IsPrimary (words : List TokenContent) : Prop := ∃ p : Primary, p.spell true = words

/-- The tokens of some operators with operands. -/
def IsTail (words : List TokenContent) : Prop := ∃ t : Tail, t.spell true = words

/-- The tokens of some arguments. -/
def IsArguments (words : List TokenContent) : Prop := ∃ a : Arguments, a.spell true = words

/-- An expression to complete a text with. -/
def filler : Phrase := .operand (.number 0)

/-- The nesting limit leaves room for a leaf and for the groups that are open. -/
structure Nesting.HasRoom (n : Nesting) : Prop where
  level : 1 ≤ n.limit
  groups : (n.groups : Int) ≤ n.limit

/-- An expression was read from one cursor to another, within the nesting limit. -/
def ReadsPhrase (n : Nesting) (c : Cursor) (m : Measured) (after : Cursor) : Prop :=
  ∃ p : Phrase, c.Spells (p.spell true) after ∧ m.expr.flat = p.spell false ∧
    (m.height : Int) ≤ n.limit ∧ ((n.groups + p.groups : Nat) : Int) ≤ n.limit

/-- A primary expression was read from one cursor to another, within the nesting limit. -/
def ReadsPrimary (n : Nesting) (c : Cursor) (m : Measured) (after : Cursor) : Prop :=
  ∃ p : Primary, c.Spells (p.spell true) after ∧ m.expr.flat = p.spell false ∧
    (m.height : Int) ≤ n.limit ∧ ((n.groups + p.groups : Nat) : Int) ≤ n.limit

/-- Operators with operands were read behind a left operand, within the nesting limit. -/
def ReadsTail (n : Nesting) (left : Measured) (c : Cursor) (m : Measured) (after : Cursor) : Prop :=
  ∃ t : Tail, c.Spells (t.spell true) after ∧
    m.expr.flat = left.expr.flat ++ t.spell false ∧ (m.height : Int) ≤ n.limit ∧
    ∀ link ∈ t, ((n.groups + link.2.groups : Nat) : Int) ≤ n.limit

/-- One or more arguments were read from one cursor to another, within the nesting limit. -/
def ReadsArguments (n : Nesting) (c : Cursor) (ms : List Measured) (after : Cursor) : Prop :=
  ∃ a : Arguments, c.Spells (a.spell true) after ∧ ms ≠ [] ∧
    Expr.flats (ms.map Measured.expr) = a.spell false ∧
    ((n.groups + a.groups : Nat) : Int) ≤ n.limit

/-- The content of a token that is a mark. -/
theorem content_of_kind_mark {t : Token} {m : Punctuation} (h : t.kind = .punctuation m) :
    t.content = mark m := by
  unfold Token.kind at h
  cases hc : t.content <;> simp_all [TokenContent.kind]

/-- The content of a token that is a reserved word. -/
theorem content_of_kind_word {t : Token} {w : Keyword} (h : t.kind = .keyword w) :
    t.content = word w := by
  unfold Token.kind at h
  cases hc : t.content <;> simp_all [TokenContent.kind]

/-- The content of a token that is a name. -/
theorem content_of_name? {t : Token} {name : String} (h : name? t = some name) :
    t.content = .identifier name := by
  unfold name? at h
  cases hc : t.content <;> simp_all

/-- The content of a token that is an operator. -/
theorem content_of_operator? {t : Token} {op : Operator} (h : t.operator? = some op) :
    t.content = .operator op := by
  unfold Token.operator? at h
  cases hc : t.content <;> simp_all

/-- The content of a token that is an operator which binds tightly enough. -/
theorem content_of_binding? {t : Token} {least : Nat} {op : Operator}
    (h : binding? least t = some op) : t.content = .operator op ∧ least ≤ op.precedence := by
  obtain ⟨hop, hle⟩ := Option.filter_eq_some_iff.mp h
  exact ⟨content_of_operator? hop, by simpa using hle⟩

/-- The content of the token that starts a primary expression. -/
def Opening.content : Opening → TokenContent
  | .number value => .number value
  | .identifier name => .identifier name
  | .group => mark .leftParen
  | .conditional => word .ifWord
  | .loop => word .forWord

/-- A token starts what its content says. -/
theorem content_of_opening? {t : Token} {o : Opening} (h : opening? t = some o) :
    t.content = o.content := by
  unfold opening? at h
  split at h
  case h_6 => contradiction
  all_goals
    next hcontent =>
      obtain rfl := Option.some.inj h
      exact hcontent

/-- What a token starts is determined by its content. -/
theorem opening?_of_content {t : Token} {o : Opening} (h : t.content = o.content) :
    opening? t = some o := by
  unfold opening?
  cases o <;> rw [h] <;> rfl

section

variable {c : Cursor} {t : Token} {rest : List Token}

/-- Passing a mark. -/
theorem Cursor.Spells.ofMark {m : Punctuation} (h : c.rest = t :: rest)
    (hk : t.kind = .punctuation m) : c.Spells [mark m] (c.pass t rest) := by
  rw [← content_of_kind_mark hk]
  exact .one h

/-- Passing a reserved word. -/
theorem Cursor.Spells.ofWord {w : Keyword} (h : c.rest = t :: rest) (hk : t.kind = .keyword w) :
    c.Spells [word w] (c.pass t rest) := by
  rw [← content_of_kind_word hk]
  exact .one h

/-- Passing the operator in front of the start of a loop. -/
theorem Cursor.Spells.ofEquals {u : Unit} (h : c.rest = t :: rest)
    (hop : ofOperator .equals t = some u) : c.Spells [.operator .equals] (c.pass t rest) := by
  have hcontent : t.content = .operator .equals := by
    unfold ofOperator at hop
    split at hop
    · next heq => exact content_of_operator? heq
    · contradiction
  rw [← hcontent]
  exact .one h

/-- Passing a name. -/
theorem Cursor.Spells.ofName {name : String} (h : c.rest = t :: rest) (hn : name? t = some name) :
    c.Spells [.identifier name] (c.pass t rest) := by
  rw [← content_of_name? hn]
  exact .one h

end

/-! ### Rules for the parts of a text -/

section

variable {α : Type} {n : Nesting} {language : List TokenContent → Prop} {c b : Cursor}
  {words : List TokenContent}

/-- Asking for a mark, where the text can be completed. -/
theorem ends_mark {good : Token → Cursor → Prop} {m : Punctuation} {context : Option String}
    (h : c.Spells words b) (more : List TokenContent) (hmore : language (words ++ mark m :: more))
    (hgood : ∀ t after, c.Spells (words ++ [mark m]) after → good t after) :
    (expect (.punctuation m) context b).Ends good (Stuck language c) :=
  ends_expect (fun t _ hrest hk => hgood t _ (h.trans (.ofMark hrest hk))) (.here h _ hmore rfl)

/-- Asking for a reserved word, where the text can be completed. -/
theorem ends_word {good : Token → Cursor → Prop} {w : Keyword} {context : Option String}
    (h : c.Spells words b) (more : List TokenContent) (hmore : language (words ++ word w :: more))
    (hgood : ∀ t after, c.Spells (words ++ [word w]) after → good t after) :
    (expect (.keyword w) context b).Ends good (Stuck language c) :=
  ends_expect (fun t _ hrest hk => hgood t _ (h.trans (.ofWord hrest hk))) (.here h _ hmore rfl)

/-- Asking for a name, where the text can be completed. -/
theorem ends_name {good : Token × String → Cursor → Prop} {context : String}
    (h : c.Spells words b) (more : List TokenContent)
    (hmore : language (words ++ .identifier "x" :: more))
    (hgood : ∀ t name after, c.Spells (words ++ [.identifier name]) after → good (t, name) after) :
    (name context b).Ends good (Stuck language c) :=
  ends_take (fun t _ name hrest hn => hgood t name _ (h.trans (.ofName hrest hn)))
    (.here h _ hmore rfl)

/-- Reading an expression as a part of a text. -/
theorem ends_part {good : Measured → Cursor → Prop} {e : Descent Measured}
    (he : (e b).Ends (ReadsPhrase n b) (Stuck IsPhrase b)) (h : c.Spells words b)
    (more : List TokenContent) (hlanguage : ∀ p : Phrase, language (words ++ (p.spell true ++ more)))
    (hgood : ∀ (p : Phrase) m after, c.Spells (words ++ p.spell true) after →
      m.expr.flat = p.spell false → (m.height : Int) ≤ n.limit →
      ((n.groups + p.groups : Nat) : Int) ≤ n.limit → good m after) :
    (e b).Ends good (Stuck language c) := by
  refine he.mono (fun m after hread => ?_) fun err after hstuck => hstuck.inside h more ?_
  · obtain ⟨p, hspells, hflat, hheight, hgroups⟩ := hread
    exact hgood p m after (h.trans hspells) hflat hheight hgroups
  · rintro _ ⟨p, rfl⟩
    exact hlanguage p

end

/-! ### The descents of the grammar -/

section

variable {n : Nesting} {c b : Cursor} {first : Token} {e : Descent Measured}

/-- A condition is read as the grammar says. -/
theorem conditional_reads (he : ∀ b, (e b).Ends (ReadsPhrase n b) (Stuck IsPhrase b))
    (h : c.Spells [word .ifWord] b) :
    (conditional n.limit e first b).Ends (ReadsPrimary n c) (Stuck IsPrimary c) := by
  simp only [conditional, ends_bind, ends_spanFrom]
  refine ends_part (he _) h [word .thenWord, .number 0, word .elseWord, .number 0]
    (fun p => ⟨.cond p filler filler, by simp [Primary.spell, Phrase.spell, filler]⟩)
    fun p₁ m₁ b₁ h hflat₁ _ hgroups₁ => ?_
  refine ends_word h [.number 0, word .elseWord, .number 0]
    ⟨.cond p₁ filler filler, by simp [Primary.spell, Phrase.spell, filler]⟩ fun _ _ h => ?_
  refine ends_part (he _) h [word .elseWord, .number 0]
    (fun p => ⟨.cond p₁ p filler, by simp [Primary.spell, Phrase.spell, filler]⟩)
    fun p₂ m₂ b₂ h hflat₂ _ hgroups₂ => ?_
  refine ends_word h [.number 0]
    ⟨.cond p₁ p₂ filler, by simp [Primary.spell, Phrase.spell, filler]⟩ fun _ _ h => ?_
  refine ends_part (he _) h [] (fun p => ⟨.cond p₁ p₂ p, by simp [Primary.spell]⟩)
    fun p₃ m₃ b₃ h hflat₃ _ hgroups₃ => ?_
  refine ends_checked (fun hheight => ?_) fun _ => .inl ⟨_, rfl⟩
  refine ⟨.cond p₁ p₂ p₃, by simpa [Primary.spell] using h, ?_, hheight, ?_⟩
  · simp [Measured.cond, Expr.flat, Primary.spell, hflat₁, hflat₂, hflat₃]
  · simp only [Primary.groups]
    omega

/-- A loop is read as the grammar says. -/
theorem forLoop_reads (he : ∀ b, (e b).Ends (ReadsPhrase n b) (Stuck IsPhrase b))
    (h : c.Spells [word .forWord] b) :
    (forLoop n.limit e first b).Ends (ReadsPrimary n c) (Stuck IsPrimary c) := by
  simp only [forLoop, ends_bind, ends_spanFrom]
  refine ends_name h [.operator .equals, .number 0, mark .comma, .number 0, word .inWord, .number 0]
    ⟨.loop "x" filler filler filler, by simp [Primary.spell, Phrase.spell, filler]⟩
    fun _ counter _ h => ?_
  refine ends_take (fun t rest _ hrest hequals => ?_)
    (.here h [.operator .equals, .number 0, mark .comma, .number 0, word .inWord, .number 0]
      ⟨.loop counter filler filler filler, by simp [Primary.spell, Phrase.spell, filler]⟩ rfl)
  have h := h.trans (.ofEquals hrest hequals)
  refine ends_part (he _) h [mark .comma, .number 0, word .inWord, .number 0]
    (fun p => ⟨.loop counter p filler filler, by simp [Primary.spell, Phrase.spell, filler]⟩)
    fun p₁ m₁ _ h hflat₁ _ hgroups₁ => ?_
  refine ends_mark h [.number 0, word .inWord, .number 0]
    ⟨.loop counter p₁ filler filler, by simp [Primary.spell, Phrase.spell, filler]⟩
    fun _ _ h => ?_
  refine ends_part (he _) h [word .inWord, .number 0]
    (fun p => ⟨.loop counter p₁ p filler, by simp [Primary.spell, Phrase.spell, filler]⟩)
    fun p₂ m₂ _ h hflat₂ _ hgroups₂ => ?_
  refine ends_takeIf (fun t rest _ hrest hcomma => ?_) ?_
  · simp only [ends_map]
    have h := h.trans (.ofMark hrest (kind_of_ofKind hcomma))
    refine ends_part (he _) h [word .inWord, .number 0]
      (fun p => ⟨.steppedLoop counter p₁ p₂ p filler, by simp [Primary.spell, Phrase.spell, filler]⟩)
      fun p₃ m₃ _ h hflat₃ _ hgroups₃ => ?_
    refine ends_word h [.number 0]
      ⟨.steppedLoop counter p₁ p₂ p₃ filler, by simp [Primary.spell, Phrase.spell, filler]⟩
      fun _ _ h => ?_
    refine ends_part (he _) h [] (fun p => ⟨.steppedLoop counter p₁ p₂ p₃ p, by simp [Primary.spell]⟩)
      fun p₄ m₄ _ h hflat₄ _ hgroups₄ => ?_
    refine ends_checked (fun hheight => ?_) fun _ => .inl ⟨_, rfl⟩
    refine ⟨.steppedLoop counter p₁ p₂ p₃ p₄, by simpa [Primary.spell] using h, ?_, hheight, ?_⟩
    · simp [Measured.loop, Expr.flat, Primary.spell, hflat₁, hflat₂, hflat₃, hflat₄]
    · simp only [Primary.groups]
      omega
  · intro _
    rw [ends_pure]
    refine ends_word h [.number 0]
      ⟨.loop counter p₁ p₂ filler, by simp [Primary.spell, Phrase.spell, filler]⟩ fun _ _ h => ?_
    refine ends_part (he _) h [] (fun p => ⟨.loop counter p₁ p₂ p, by simp [Primary.spell]⟩)
      fun p₄ m₄ _ h hflat₄ _ hgroups₄ => ?_
    refine ends_checked (fun hheight => ?_) fun _ => .inl ⟨_, rfl⟩
    refine ⟨.loop counter p₁ p₂ p₄, by simpa [Primary.spell] using h, ?_, hheight, ?_⟩
    · simp [Measured.loop, Expr.flat, Primary.spell, hflat₁, hflat₂, hflat₄]
    · simp only [Primary.groups]
      omega

/-- A group is read as the grammar says. -/
theorem grouping_reads {chain : Nesting → Descent Measured}
    (hchain : (n.groups : Int) + 1 ≤ n.limit → ∀ b,
      (chain { n with groups := n.groups + 1 } b).Ends
        (ReadsPhrase { n with groups := n.groups + 1 } b) (Stuck IsPhrase b))
    (h : c.Spells [mark .leftParen] b) :
    (grouping n chain first b).Ends (ReadsPrimary n c) (Stuck IsPrimary c) := by
  unfold grouping
  split
  · exact .inl ⟨_, rfl⟩
  · next hroom =>
    simp only [ends_bind, ends_pure]
    refine ends_part (hchain (by omega) _) h [mark .rightParen]
      (fun p => ⟨.group p, by simp [Primary.spell, enclose]⟩)
      fun p m _ h hflat hheight hgroups => ?_
    refine ends_mark h [] ⟨.group p, by simp [Primary.spell, enclose]⟩ fun _ _ h => ?_
    refine ⟨.group p, by simpa [Primary.spell, enclose] using h, ?_, hheight, ?_⟩
    · rw [hflat, Primary.spell, enclose]
      rfl
    · simp only [Primary.groups] at hgroups ⊢
      omega

/-- A variable or a call is read as the grammar says. -/
theorem variableOrCall_reads (room : n.HasRoom) {arguments : Descent (List Measured)}
    (harguments : ∀ b, (arguments b).Ends (ReadsArguments n b) (Stuck IsArguments b))
    {name : String} (h : c.Spells [.identifier name] b) :
    (variableOrCall n.limit arguments first name b).Ends (ReadsPrimary n c) (Stuck IsPrimary c) := by
  have hlevel := room.level
  have hgroups := room.groups
  refine ends_takeIf (fun t rest _ hrest hparen => ?_) ?_
  · have h := h.trans (.ofMark hrest (kind_of_ofKind hparen))
    simp only [callArguments, argumentsIfAny, ends_bind, ends_peek]
    split
    · rw [ends_pure]
      apply ends_mark h [] ⟨.emptyCall name, by simp [Primary.spell]⟩
      intro _ _ h
      simp only [ends_spanFrom]
      refine ends_checked (fun hheight => ?_) fun _ => .inl ⟨_, rfl⟩
      refine ⟨.emptyCall name, by simpa [Primary.spell] using h, ?_, hheight, ?_⟩
      · simp [Measured.call, Expr.flat, Expr.flats, Primary.spell]
      · simpa [Primary.groups] using hgroups
    · refine (harguments _).mono (fun ms after hread => ?_) fun err after hstuck =>
        hstuck.inside h [mark .rightParen] ?_
      · obtain ⟨a, hspells, _, hflats, hgroups⟩ := hread
        have h := h.trans hspells
        apply ends_mark h [] ⟨.call name a, by simp [Primary.spell]⟩
        intro _ _ h
        simp only [ends_spanFrom]
        refine ends_checked (fun hheight => ?_) fun _ => .inl ⟨_, rfl⟩
        refine ⟨.call name a, by simpa [Primary.spell] using h, ?_, hheight, hgroups⟩
        simp [Measured.call, Expr.flat, Primary.spell, hflats]
      · rintro _ ⟨a, rfl⟩
        exact ⟨.call name a, by simp [Primary.spell]⟩
  · intro _
    simp only [variableRef, ends_bind, ends_spanFrom, ends_pure]
    exact ⟨.name name, h, rfl, by simpa using hlevel, by simpa [Primary.groups] using hgroups⟩

end

end Parser

end Formulary
