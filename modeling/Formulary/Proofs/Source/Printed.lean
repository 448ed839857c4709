import Formulary.Expr.Source
import Formulary.Proofs.Source.Canonical
import Formulary.Proofs.Source.Words

/-!
# Reading canonical text

The tokens of canonical text are those of the canonical derivation. Each construct is a row of
pieces: words, marks and blanks, and the texts of its parts. No two words touch, so every word ends
where it was meant to.
-/

namespace Formulary

open Formulary.Parser Formulary.Lexer

namespace Lexer

section

variable {text : List Char} {words : List TokenContent}

/-- A mark is a token. -/
theorem Reads.punctuation (m : Punctuation) (h : Reads text words) :
    Reads (m.char :: text) (Formulary.mark m :: words) := by
  refine .mark ?_ ?_ ?_ ?_ h
  · cases m <;> decide
  · cases m <;> decide
  · cases m <;> decide
  · rw [readMark?, Punctuation.ofChar?_char]

/-- An operator is a token. -/
theorem Reads.operator (o : Operator) (h : Reads text words) :
    Reads (o.char :: text) (.operator o :: words) := by
  refine .mark ?_ ?_ ?_ ?_ h
  · cases o <;> decide
  · cases o <;> decide
  · cases o <;> decide
  · have hnone : Punctuation.ofChar? o.char = none := by cases o <;> decide
    rw [readMark?, hnone, Operator.ofChar?_char]
    rfl

/-- A space stands for nothing. -/
theorem Reads.space (h : Reads text words) : Reads (' ' :: text) words := h.blank (by decide)

/-- A word ends before a space. -/
theorem endsWord_space : EndsWord (' ' :: text) := .cons rfl

/-- A word ends before a mark. -/
theorem endsWord_mark (m : Punctuation) : EndsWord (m.char :: text) := .cons (by cases m <;> rfl)

/-- A word ends where the text does. -/
theorem endsWord_nil : EndsWord [] := by simp [EndsWord]

end

end Lexer

namespace Expr

/-- The tokens of an expression in a list are among those of the list. -/
theorem flat_subset_flats {e : Expr} {es : List Expr} (h : e ∈ es) : e.flat ⊆ flats es := by
  induction es with
  | nil => simp at h
  | cons x rest ih =>
    cases rest with
    | nil =>
      rw [List.mem_singleton.mp h]
      exact List.Subset.refl _
    | cons y rest =>
      rw [flats]
      rcases List.mem_cons.mp h with rfl | h
      · exact List.subset_append_left _ _
      · exact fun w hw => List.mem_append_right _ (List.mem_cons_of_mem _ (ih h hw))

/-- The text of an expression has the tokens of its canonical derivation. -/
def IsRead (e : Expr) : Prop := Reads e.source.toList (e.canonical.spell true)

section

variable {name : String} {op : Operator} {e₁ e₂ e₃ e₄ : Expr} {span : Option Span}

/-- An operation is read if its operands are. -/
theorem isRead_binary (h₁ : e₁.IsRead) (h₂ : e₂.IsRead) : (binary op e₁ e₂ span).IsRead := by
  have htext : (binary op e₁ e₂ span).source.toList =
      '(' :: (e₁.source.toList ++ ' ' :: op.char :: ' ' :: (e₂.source.toList ++ [')'])) := by
    simp [source_binary, Operator.text]
  have hspell : (binary op e₁ e₂ span).canonical.spell true =
      mark .leftParen :: (e₁.canonical.spell true ++ .operator op ::
        (e₂.canonical.spell true ++ [mark .rightParen])) := by
    simp [canonical, Primary.spell, Phrase.spell, enclose]
  rw [IsRead, htext, hspell]
  apply Reads.punctuation .leftParen
  apply h₁.append endsWord_space
  apply Reads.space
  apply Reads.operator
  apply Reads.space
  apply h₂.append (endsWord_mark .rightParen)
  exact .punctuation .rightParen .nil

/-- A condition is read if its parts are. -/
theorem isRead_cond (h₁ : e₁.IsRead) (h₂ : e₂.IsRead) (h₃ : e₃.IsRead) :
    (cond e₁ e₂ e₃ span).IsRead := by
  have htext : (cond e₁ e₂ e₃ span).source.toList =
      '(' :: (Keyword.ifWord.text.toList ++ ' ' :: (e₁.source.toList ++
        ' ' :: (Keyword.thenWord.text.toList ++ ' ' :: (e₂.source.toList ++
          ' ' :: (Keyword.elseWord.text.toList ++ ' ' :: (e₃.source.toList ++ [')'])))))) := by
    simp [source_cond, Keyword.text]
  have hspell : (cond e₁ e₂ e₃ span).canonical.spell true =
      mark .leftParen :: word .ifWord :: (e₁.canonical.spell true ++
        word .thenWord :: (e₂.canonical.spell true ++
          word .elseWord :: (e₃.canonical.spell true ++ [mark .rightParen]))) := by
    simp [canonical, Primary.spell, Phrase.spell, enclose]
  rw [IsRead, htext, hspell]
  apply Reads.punctuation .leftParen
  apply Reads.keyword .ifWord endsWord_space
  apply Reads.space
  apply h₁.append endsWord_space
  apply Reads.space
  apply Reads.keyword .thenWord endsWord_space
  apply Reads.space
  apply h₂.append endsWord_space
  apply Reads.space
  apply Reads.keyword .elseWord endsWord_space
  apply Reads.space
  apply h₃.append (endsWord_mark .rightParen)
  exact .punctuation .rightParen .nil

/-- A loop without a step is read if its parts are. -/
theorem isRead_loop (hname : IsName name) (h₁ : e₁.IsRead) (h₂ : e₂.IsRead) (h₃ : e₃.IsRead) :
    (loop name e₁ e₂ none e₃ span).IsRead := by
  have htext : (loop name e₁ e₂ none e₃ span).source.toList =
      '(' :: (Keyword.forWord.text.toList ++ ' ' :: (name.toList ++ ' ' :: '=' :: ' ' ::
        (e₁.source.toList ++ ',' :: ' ' :: (e₂.source.toList ++
          ' ' :: (Keyword.inWord.text.toList ++ ' ' :: (e₃.source.toList ++ [')'])))))) := by
    simp [source_loop, Keyword.text]
  have hspell : (loop name e₁ e₂ none e₃ span).canonical.spell true =
      mark .leftParen :: word .forWord :: .identifier name :: .operator .equals ::
        (e₁.canonical.spell true ++ mark .comma :: (e₂.canonical.spell true ++
          word .inWord :: (e₃.canonical.spell true ++ [mark .rightParen]))) := by
    simp [canonical, Primary.spell, Phrase.spell, enclose]
  rw [IsRead, htext, hspell]
  apply Reads.punctuation .leftParen
  apply Reads.keyword .forWord endsWord_space
  apply Reads.space
  apply Reads.name hname endsWord_space
  apply Reads.space
  apply Reads.operator .equals
  apply Reads.space
  apply h₁.append (endsWord_mark .comma)
  apply Reads.punctuation .comma
  apply Reads.space
  apply h₂.append endsWord_space
  apply Reads.space
  apply Reads.keyword .inWord endsWord_space
  apply Reads.space
  apply h₃.append (endsWord_mark .rightParen)
  exact .punctuation .rightParen .nil

/-- A loop with a step is read if its parts are. -/
theorem isRead_steppedLoop (hname : IsName name) (h₁ : e₁.IsRead) (h₂ : e₂.IsRead)
    (h₃ : e₃.IsRead) (h₄ : e₄.IsRead) : (loop name e₁ e₂ (some e₃) e₄ span).IsRead := by
  have htext : (loop name e₁ e₂ (some e₃) e₄ span).source.toList =
      '(' :: (Keyword.forWord.text.toList ++ ' ' :: (name.toList ++ ' ' :: '=' :: ' ' ::
        (e₁.source.toList ++ ',' :: ' ' :: (e₂.source.toList ++ ',' :: ' ' ::
          (e₃.source.toList ++ ' ' :: (Keyword.inWord.text.toList ++ ' ' ::
            (e₄.source.toList ++ [')']))))))) := by
    simp [source_steppedLoop, Keyword.text]
  have hspell : (loop name e₁ e₂ (some e₃) e₄ span).canonical.spell true =
      mark .leftParen :: word .forWord :: .identifier name :: .operator .equals ::
        (e₁.canonical.spell true ++ mark .comma :: (e₂.canonical.spell true ++
          mark .comma :: (e₃.canonical.spell true ++
            word .inWord :: (e₄.canonical.spell true ++ [mark .rightParen])))) := by
    simp [canonical, Primary.spell, Phrase.spell, enclose]
  rw [IsRead, htext, hspell]
  apply Reads.punctuation .leftParen
  apply Reads.keyword .forWord endsWord_space
  apply Reads.space
  apply Reads.name hname endsWord_space
  apply Reads.space
  apply Reads.operator .equals
  apply Reads.space
  apply h₁.append (endsWord_mark .comma)
  apply Reads.punctuation .comma
  apply Reads.space
  apply h₂.append (endsWord_mark .comma)
  apply Reads.punctuation .comma
  apply Reads.space
  apply h₃.append endsWord_space
  apply Reads.space
  apply Reads.keyword .inWord endsWord_space
  apply Reads.space
  apply h₄.append (endsWord_mark .rightParen)
  exact .punctuation .rightParen .nil

end

/-- Printed arguments have the tokens of their canonical derivations. -/
theorem reads_arguments {e : Expr} {rest : List Expr} (h : ∀ a ∈ e :: rest, a.IsRead) :
    Reads (", ".intercalate ((e :: rest).map source)).toList
      ((Arguments.ofOperands e.canonical (rest.map canonical)).spell true) := by
  induction rest generalizing e with
  | nil =>
    rw [List.map_singleton, String.intercalate_singleton]
    exact h e List.mem_cons_self
  | cons a rest ih =>
    obtain ⟨he, hrest⟩ := List.forall_mem_cons.mp h
    have htext : (", ".intercalate ((e :: a :: rest).map source)).toList =
        e.source.toList ++ ',' :: ' ' :: (", ".intercalate ((a :: rest).map source)).toList := by
      simp [String.intercalate_cons_cons]
    rw [htext]
    apply he.append (endsWord_mark .comma)
    apply Reads.punctuation .comma
    apply Reads.space
    exact ih hrest

/-- A call is read if its arguments are. -/
theorem isRead_call {name : String} {arguments : List Expr} {span : Option Span}
    (hname : IsName name) (h : ∀ a ∈ arguments, a.IsRead) : (call name arguments span).IsRead := by
  have htext : (call name arguments span).source.toList = name.toList ++
      '(' :: ((", ".intercalate (arguments.map source)).toList ++ [')']) := by
    simp [source_call, sources_eq_map]
  rw [IsRead, htext, canonical, canonicals_eq_map]
  cases arguments with
  | nil =>
    apply Reads.name hname (endsWord_mark .leftParen)
    apply Reads.punctuation .leftParen
    exact .punctuation .rightParen .nil
  | cons e rest =>
    apply Reads.name hname (endsWord_mark .leftParen)
    apply Reads.punctuation .leftParen
    apply (reads_arguments h).append (endsWord_mark .rightParen)
    exact .punctuation .rightParen .nil

/-- Every expression is read from its text, if its names and numbers are such as the lexer reads. -/
theorem isRead_of_isProper {e : Expr} (h : ∀ w ∈ e.flat, w.IsProper) : e.IsRead := by
  induction e with
  | number value span =>
    have hvalue : Number.IsLiteral value := h (.number value) List.mem_cons_self
    simpa [IsRead, source_number, canonical, Primary.spell] using Reads.number hvalue endsWord_nil .nil
  | var name span =>
    have hname : IsName name := h (.identifier name) List.mem_cons_self
    simpa [IsRead, source_var, canonical, Primary.spell] using Reads.name hname endsWord_nil .nil
  | binary op left right span hl hr =>
    simp only [flat, List.forall_mem_append, List.forall_mem_cons] at h
    exact isRead_binary (hl h.1) (hr h.2.2)
  | call name arguments span ih =>
    simp only [flat, List.forall_mem_append, List.forall_mem_cons] at h
    obtain ⟨hname, _, harguments, _⟩ := h
    apply isRead_call hname
    intro a ha
    exact ih a ha fun w hw => harguments w (flat_subset_flats ha hw)
  | cond condition consequent alternative span hc ht hf =>
    simp only [flat, List.forall_mem_append, List.forall_mem_cons] at h
    obtain ⟨_, hcondition, _, hconsequent, _, halternative⟩ := h
    exact isRead_cond (hc hcondition) (ht hconsequent) (hf halternative)
  | loop name start stop step body span h1 h2 h3 h4 =>
    cases step with
    | none =>
      simp only [flat, List.forall_mem_append, List.forall_mem_cons] at h
      obtain ⟨_, hname, _, hstart, _, hstop, _, hbody⟩ := h
      exact isRead_loop hname (h1 hstart) (h2 hstop) (h4 hbody)
    | some s =>
      simp only [flat, List.forall_mem_append, List.forall_mem_cons] at h
      obtain ⟨_, hname, _, hstart, _, hstop, _, hstep, _, hbody⟩ := h
      exact isRead_steppedLoop hname (h1 hstart) (h2 hstop) (h3 s rfl hstep) (h4 hbody)

end Expr

/-- Printed parameters have the tokens of the names. -/
theorem reads_params {params : List String} (h : ∀ name ∈ params, IsName name) :
    Reads (" ".intercalate params).toList (params.map .identifier) := by
  induction params with
  | nil => exact .nil
  | cons name rest ih =>
    obtain ⟨hname, hrest⟩ := List.forall_mem_cons.mp h
    cases rest with
    | nil =>
      rw [String.intercalate_singleton]
      simpa using Reads.name hname endsWord_nil .nil
    | cons other rest =>
      have htext : (" ".intercalate (name :: other :: rest)).toList =
          name.toList ++ ' ' :: (" ".intercalate (other :: rest)).toList := by
        simp [String.intercalate_cons_cons]
      rw [htext]
      exact .name hname endsWord_space (.space (ih hrest))

/-- A printed prototype has the tokens of its canonical derivation. -/
theorem Prototype.reads_source {p : Prototype} (h : ∀ w ∈ p.flat, w.IsProper) :
    Reads p.source.toList (p.canonical.spell true) := by
  simp only [flat, List.forall_mem_cons, List.forall_mem_append, List.forall_mem_map] at h
  obtain ⟨hname, _, hparams, _⟩ := h
  have htext : p.source.toList =
      p.name.toList ++ '(' :: ((" ".intercalate p.params).toList ++ [')']) := by
    simp [source]
  have hspell : p.canonical.spell true =
      .identifier p.name :: mark .leftParen :: (p.params.map .identifier ++ [mark .rightParen]) := by
    rw [canonical, Signature.spell, List.flatMap_map]
    congr 2
    rw [List.map_eq_flatMap]
    rfl
  rw [htext, hspell]
  apply Reads.name hname (endsWord_mark .leftParen)
  apply Reads.punctuation .leftParen
  apply (reads_params hparams).append (endsWord_mark .rightParen)
  exact .punctuation .rightParen .nil

/-- A printed statement has the tokens of its canonical derivation. -/
theorem Statement.reads_source {s : Statement} (h : ∀ w ∈ s.flat, w.IsProper) :
    Reads s.source.toList (s.canonical.spell true) := by
  cases s with
  | foreign p =>
    have htext : (foreign p).source.toList =
        Keyword.externWord.text.toList ++ ' ' :: (p.source.toList ++ [';']) := by
      simp [source, Keyword.text]
    simp only [flat, Prototype.flatExtern, List.forall_mem_cons, List.forall_mem_append] at h
    rw [htext, canonical, Clause.spell]
    apply Reads.keyword .externWord endsWord_space
    apply Reads.space
    apply (Prototype.reads_source h.2.1).append (endsWord_mark .semicolon)
    exact .punctuation .semicolon .nil
  | definition d =>
    have htext : (definition d).source.toList = Keyword.defWord.text.toList ++
        ' ' :: (d.prototype.source.toList ++ ' ' :: (d.body.source.toList ++ [';'])) := by
      simp [source, Definition.source, Keyword.text]
    simp only [flat, Definition.flat, List.forall_mem_cons, List.forall_mem_append] at h
    obtain ⟨_, hprototype, hbody, _⟩ := h
    rw [htext, canonical, Clause.spell, Phrase.spell]
    apply Reads.keyword .defWord endsWord_space
    apply Reads.space
    apply (Prototype.reads_source hprototype).append endsWord_space
    apply Reads.space
    apply (Expr.isRead_of_isProper hbody).append (endsWord_mark .semicolon)
    exact .punctuation .semicolon .nil
  | expression e =>
    have htext : (expression e).source.toList = e.source.toList ++ [';'] := by simp [source]
    simp only [flat, Expr.flatStatement, List.forall_mem_append] at h
    rw [htext, canonical, Clause.spell, Phrase.spell]
    apply (Expr.isRead_of_isProper h.1).append (endsWord_mark .semicolon)
    exact .punctuation .semicolon .nil

/-- Printed statements, each on its line, have the tokens of their canonical derivations. -/
theorem reads_statements {ss : List Statement} (h : ∀ s ∈ ss, ∀ w ∈ s.flat, w.IsProper) :
    Reads (String.join (ss.map fun s => s.source ++ "\n")).toList
      (spellAll true (ss.map Statement.canonical)) := by
  induction ss with
  | nil => exact .nil
  | cons s rest ih =>
    obtain ⟨hs, hrest⟩ := List.forall_mem_cons.mp h
    have htext : (String.join ((s :: rest).map fun s => s.source ++ "\n")).toList =
        s.source.toList ++ '\n' :: (String.join (rest.map fun s => s.source ++ "\n")).toList := by
      simp
    rw [htext, List.map_cons, spellAll, List.flatMap_cons]
    exact .append (Statement.reads_source hs) (.cons rfl) (.blank (by decide) (ih hrest))

/-- The tokens of a printed program are those of the canonical derivations of its statements. -/
theorem Program.tokenize_source {p : Program} (h : ∀ s ∈ p.statements, ∀ w ∈ s.flat, w.IsProper)
    (filename : String) : ∃ ts, tokenize p.source filename = .ok ts ∧
      ts.map Token.content = spellAll true (p.statements.map Statement.canonical) := by
  have hend (place : Position) : Lexes filename ⟨[], place⟩ [] := .done rfl
  have hreads := reads_statements h filename [] [] endsWord_nil hend {}
  rw [List.append_nil, List.append_nil] at hreads
  exact hreads.tokenize

end Formulary
