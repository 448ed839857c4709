/-!
# Text files

A text file holds UTF-8. A carriage return, alone or before a line feed, ends a line as a line feed
does, and is read as one. A byte-order mark is a character like any other.
-/

namespace Formulary.File

/-- Write every line end as a line feed. -/
def unifyLineEnds : List Char → List Char
  | [] => []
  | '\r' :: '\n' :: rest => '\n' :: unifyLineEnds rest
  | c :: rest => (if c = '\r' then '\n' else c) :: unifyLineEnds rest

/-- The text that a file holds, if its bytes are UTF-8. -/
def text? (bytes : ByteArray) : Option String :=
  (String.fromUTF8? bytes).map fun text => String.ofList (unifyLineEnds text.toList)

/-- What is read holds no carriage return. -/
theorem not_mem_unifyLineEnds (text : List Char) : '\r' ∉ unifyLineEnds text := by
  fun_induction unifyLineEnds text with
  | case1 => simp
  | case2 rest ih => simpa using ih
  | case3 c rest _ ih =>
    by_cases h : c = '\r' <;> simp_all [Ne.symm]

/-- Text without carriage returns is read as it is. -/
theorem unifyLineEnds_of_not_mem {text : List Char} (h : '\r' ∉ text) :
    unifyLineEnds text = text := by
  fun_induction unifyLineEnds text with
  | case1 => rfl
  | case2 => simp at h
  | case3 c rest _ ih =>
    simp only [List.mem_cons, not_or] at h
    simp [Ne.symm h.1, ih h.2]

/-- What is written in UTF-8 can be read. -/
theorem text?_toUTF8 (text : String) :
    text? text.toUTF8 = some (String.ofList (unifyLineEnds text.toList)) := by
  have h : String.fromUTF8? text.toUTF8 = some text := by
    unfold String.fromUTF8?
    split
    · rfl
    · next h => exact absurd (by simpa using text.isValidUTF8) h
  rw [text?, h]
  rfl

example : unifyLineEnds ['a', '\r', '\n', '\r', '\r', 'b'] = ['a', '\n', '\n', '\n', 'b'] := by
  decide

end Formulary.File
