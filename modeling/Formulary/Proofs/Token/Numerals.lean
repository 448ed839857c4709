import Formulary.Token.Numeral

/-!
# The words that spell numbers

A word spells a number if it is made of digits, a fraction and an exponent, of which the last two may
be absent. The division of a word into these parts is what `read?` finds: it takes digits as long as
there are any, and neither a point nor the mark of an exponent is a digit.
-/

namespace Formulary

/-- What satisfies a condition is taken up to where it fails, and the rest is left. -/
theorem takeWhile_dropWhile_append {α : Type} {p : α → Bool} {a b : List α}
    (ha : ∀ c ∈ a, p c = true) (hb : ∀ c ∈ b.head?, p c = false) :
    (a ++ b).takeWhile p = a ∧ (a ++ b).dropWhile p = b := by
  rw [List.takeWhile_append_of_pos ha, List.dropWhile_append_of_pos ha]
  cases b with
  | nil => exact ⟨List.append_nil a, rfl⟩
  | cons c rest =>
    have hc : ¬p c = true := by
      rw [hb c rfl]
      exact Bool.false_ne_true
    rw [List.takeWhile_cons_of_neg hc, List.dropWhile_cons_of_neg hc]
    exact ⟨List.append_nil a, rfl⟩

/-- Where taking stops the condition fails. -/
theorem head?_dropWhile_eq_false {α : Type} {p : α → Bool} (l : List α) :
    ∀ c ∈ (l.dropWhile p).head?, p c = false := by
  intro c hc
  simpa [Option.mem_def.mp hc] using List.head?_dropWhile_not p l

namespace Numeral

/-- The fraction of a number word with its digits: nothing, or a point and digits. -/
inductive Fraction : List Char → List Char → Prop where
  | absent : Fraction [] []
  | point {digits : List Char} (h : ∀ c ∈ digits, c.isDigit = true) :
    Fraction ('.' :: digits) digits

/-- The exponent of a number word with its digits: nothing, or a letter `e` and digits. -/
inductive Exponent : List Char → List Char → Prop where
  | absent : Exponent [] []
  | mark {c : Char} {digits : List Char} (letter : c = 'e' ∨ c = 'E') (hne : digits ≠ [])
    (h : ∀ c ∈ digits, c.isDigit = true) : Exponent (c :: digits) digits

/-- A word spells a number: digits, a fraction, and an exponent. -/
inductive Spells : List Char → Numeral → Prop where
  | parts {whole point fraction mark exponent : List Char} (hne : whole ≠ [])
    (hwhole : ∀ c ∈ whole, c.isDigit = true) (hpoint : Fraction point fraction)
    (hmark : Exponent mark exponent) : Spells (whole ++ (point ++ mark)) ⟨whole, fraction, exponent⟩

/-- No exponent begins with a digit. -/
theorem Exponent.head?_isDigit {mark exponent : List Char} (h : Exponent mark exponent) :
    ∀ c ∈ mark.head?, c.isDigit = false := by
  cases h with
  | absent => exact fun _ hc => nomatch hc
  | mark letter =>
    intro c hc
    obtain rfl := Option.some.inj hc
    rcases letter with rfl | rfl <;> decide

/-- Nor does a fraction with an exponent behind it. -/
theorem Fraction.head?_isDigit {point fraction mark exponent : List Char}
    (hpoint : Fraction point fraction) (hmark : Exponent mark exponent) :
    ∀ c ∈ (point ++ mark).head?, c.isDigit = false := by
  cases hpoint with
  | absent => exact hmark.head?_isDigit
  | point =>
    intro c hc
    obtain rfl := Option.some.inj hc
    decide

/-- A fraction is split off. -/
theorem splitFraction_append {point fraction mark exponent : List Char}
    (hpoint : Fraction point fraction) (hmark : Exponent mark exponent) :
    splitFraction (point ++ mark) = (fraction, mark) := by
  cases hpoint with
  | absent =>
    cases hmark with
    | absent => rfl
    | mark letter => rcases letter with rfl | rfl <;> rfl
  | point h =>
    obtain ⟨htake, hdrop⟩ := takeWhile_dropWhile_append h hmark.head?_isDigit
    rw [List.cons_append, splitFraction, htake, hdrop]

/-- Every word begins with a fraction, if an absent one counts. -/
theorem exists_fraction (rest : List Char) : ∃ point, Fraction point (splitFraction rest).1 ∧
    rest = point ++ (splitFraction rest).2 := by
  unfold splitFraction
  split
  · next rest =>
    refine ⟨'.' :: rest.takeWhile Char.isDigit, .point (List.all_eq_true.mp List.all_takeWhile), ?_⟩
    rw [List.cons_append, List.takeWhile_append_dropWhile]
  · exact ⟨[], .absent, rfl⟩

/-- Reading an exponent finds its digits, and finds nothing in other words. -/
theorem readExponent?_eq_some_iff (mark exponent : List Char) :
    readExponent? mark = some exponent ↔ Exponent mark exponent := by
  constructor
  · intro h
    cases mark with
    | nil =>
      obtain rfl := Option.some.inj h
      exact .absent
    | cons c digits =>
      rw [readExponent?, Option.ite_none_right_eq_some] at h
      obtain ⟨⟨letter, hne, hdigits⟩, hsome⟩ := h
      obtain rfl := Option.some.inj hsome
      exact .mark letter hne (List.all_eq_true.mp hdigits)
  · rintro (_ | ⟨letter, hne, hdigits⟩)
    · rfl
    · exact if_pos ⟨letter, hne, List.all_eq_true.mpr hdigits⟩

/-- Reading a word finds the number that it spells, and finds nothing in a word that spells none. -/
theorem read?_eq_some_iff (word : List Char) (n : Numeral) : read? word = some n ↔ Spells word n := by
  constructor
  · intro h
    obtain ⟨point, hpoint, hrest⟩ := exists_fraction (word.dropWhile Char.isDigit)
    simp only [read?] at h
    split at h
    · contradiction
    · next hne =>
      obtain ⟨exponent, hexponent, rfl⟩ := Option.map_eq_some_iff.mp h
      have hspells := Spells.parts hne (List.all_eq_true.mp List.all_takeWhile) hpoint
        ((readExponent?_eq_some_iff _ _).mp hexponent)
      rwa [← hrest, List.takeWhile_append_dropWhile] at hspells
  · rintro ⟨hne, hwhole, hpoint, hmark⟩
    obtain ⟨htake, hdrop⟩ := takeWhile_dropWhile_append hwhole (hpoint.head?_isDigit hmark)
    simp only [read?, htake, hdrop, splitFraction_append hpoint hmark, if_neg hne,
      (readExponent?_eq_some_iff _ _).mpr hmark, Option.map_some]

/-- In a word that spells no number none is found. -/
theorem read?_eq_none {word : List Char} (h : ∀ n, ¬ Spells word n) : read? word = none := by
  cases hread : read? word with
  | none => rfl
  | some n => exact absurd ((read?_eq_some_iff word n).mp hread) (h n)

/-- A word that spells a number begins with a digit. -/
theorem Spells.head?_isDigit {word : List Char} {n : Numeral} (h : Spells word n) :
    word.head?.any Char.isDigit = true := by
  obtain ⟨hne, hwhole, _, _⟩ := h
  obtain ⟨c, rest, rfl⟩ := List.exists_cons_of_ne_nil hne
  exact hwhole c List.mem_cons_self

end Numeral

end Formulary
