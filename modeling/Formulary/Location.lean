import Formulary.Text.Quoted

/-!
# Places in source text

A location names a file and a character in it: line and column count from one, the offset from
zero, and all three count code points. A span runs from the location of the first token of a node
to the location of its last token.
-/

namespace Formulary

/-- The place of one character. -/
structure Location where
  filename : String
  line : Nat
  column : Nat
  offset : Nat
deriving DecidableEq, Repr

namespace Location

/-- File, line and column, as diagnostics show them. -/
def render (l : Location) : String := s!"{l.filename}:{l.line}:{l.column}"

/-- Constructor text, with the file name in quotes. -/
def inspect (l : Location) : String :=
  s!"SourceLocation({Text.quoted l.filename}, {l.line}, {l.column}, {l.offset})"

end Location

/-- A character position in some text. -/
structure Position where
  offset : Nat := 0
  line : Nat := 1
  column : Nat := 1
deriving DecidableEq, Repr

namespace Position

/-- The position after one character; only a line feed starts a new line. -/
def next (p : Position) (c : Char) : Position :=
  if c = '\n' then ⟨p.offset + 1, p.line + 1, 1⟩ else ⟨p.offset + 1, p.line, p.column + 1⟩

/-- The position after a piece of text. -/
def after (p : Position) (text : List Char) : Position := text.foldl next p

/-- The location of a position in a file. -/
def locate (p : Position) (filename : String) : Location := ⟨filename, p.line, p.column, p.offset⟩

@[simp] theorem after_nil (p : Position) : p.after [] = p := rfl

@[simp] theorem after_cons (p : Position) (c : Char) (text : List Char) :
    p.after (c :: text) = (p.next c).after text := rfl

@[simp] theorem after_append (p : Position) (text more : List Char) :
    p.after (text ++ more) = (p.after text).after more := by
  simp [after, List.foldl_append]

/-- The offset counts characters. -/
theorem offset_after (p : Position) (text : List Char) :
    (p.after text).offset = p.offset + text.length := by
  induction text generalizing p with
  | nil => rfl
  | cons c text ih =>
    rw [after_cons, ih, List.length_cons]
    unfold next
    split <;> simp only <;> omega

/-- The line counts line feeds. -/
theorem line_after (p : Position) (text : List Char) :
    (p.after text).line = p.line + text.count '\n' := by
  induction text generalizing p with
  | nil => rfl
  | cons c text ih =>
    rw [after_cons, ih, List.count_cons]
    unfold next
    split
    · simp_all
      omega
    · simp_all

end Position

/-- The locations of the first and the last token of a piece of source text. -/
structure Span where
  first : Location
  last : Location
deriving DecidableEq, Repr

namespace Span

/-- A span in one file names the file once. -/
def render (s : Span) : String :=
  if s.first.filename = s.last.filename then
    s!"{s.first.render}-{s.last.line}:{s.last.column}"
  else s!"{s.first.render}-{s.last.render}"

/-- The span between two places, if both are known. -/
def between? (first last : Option Location) : Option Span :=
  match first, last with
  | some f, some l => some ⟨f, l⟩
  | _, _ => none

/-- The span from the beginning of one span to the end of another, if both are known. -/
def join? (left right : Option Span) : Option Span :=
  between? (left.map Span.first) (right.map Span.last)

end Span

end Formulary
