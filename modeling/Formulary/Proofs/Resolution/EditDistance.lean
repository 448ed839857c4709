import Formulary.Resolution.Distance
import Mathlib.Order.Bounds.Basic

/-!
# The edit distance is the least number of edits

An edit inserts, deletes or replaces one character anywhere in a text. The distance is measured
against all sequences of edits (`Edits`), in any order and with characters that are edited more than
once. `distance` is the recurrence that the rows are filled by. It is reached by a sequence of edits,
and no edit changes the distance from any text by more than one (`Edit.distance_le`), so that no
sequence is shorter.

The recurrence takes texts apart at the front and the rows go through them from the front, so a row
holds distances between reversed beginnings (`row`). Reversing both texts reverses the edits.
-/

namespace Formulary.Resolution

/-! ### Edits -/

/-- One character is inserted, deleted or replaced. -/
inductive Edit : List Char → List Char → Prop where
  | insert (before after : List Char) (c : Char) : Edit (before ++ after) (before ++ c :: after)
  | delete (before after : List Char) (c : Char) : Edit (before ++ c :: after) (before ++ after)
  | replace (before after : List Char) (c d : Char) :
    Edit (before ++ c :: after) (before ++ d :: after)

/-- A number of edits, one after the other. -/
inductive Edits : Nat → List Char → List Char → Prop where
  | none {a} : Edits 0 a a
  | more {n a b c} (first : Edit a b) (others : Edits n b c) : Edits (n + 1) a c

namespace Edit

variable {a b : List Char}

/-- An edit can be taken back. -/
theorem symm (h : Edit a b) : Edit b a := by
  cases h with
  | insert before after c => exact .delete before after c
  | delete before after c => exact .insert before after c
  | replace before after c d => exact .replace before after d c

/-- An edit can be made behind another character. -/
theorem cons (x : Char) (h : Edit a b) : Edit (x :: a) (x :: b) := by
  cases h with
  | insert before after c => exact .insert (x :: before) after c
  | delete before after c => exact .delete (x :: before) after c
  | replace before after c d => exact .replace (x :: before) after c d

/-- An edit can be made in the reversed text. -/
theorem reverse (h : Edit a b) : Edit a.reverse b.reverse := by
  cases h with
  | insert before after c => simpa using Edit.insert after.reverse before.reverse c
  | delete before after c => simpa using Edit.delete after.reverse before.reverse c
  | replace before after c d => simpa using Edit.replace after.reverse before.reverse c d

end Edit

namespace Edits

variable {m n : Nat} {a b c : List Char}

/-- One edit. -/
theorem one (h : Edit a b) : Edits 1 a b := .more h .none

/-- Edits can be followed by others. -/
theorem trans (h : Edits m a b) (h' : Edits n b c) : Edits (m + n) a c := by
  induction h with
  | none => rwa [Nat.zero_add]
  | more first _ ih =>
    rw [Nat.succ_add]
    exact .more first (ih h')

/-- Edits can be taken back. -/
theorem symm (h : Edits n a b) : Edits n b a := by
  induction h with
  | none => exact .none
  | more first _ ih => exact ih.trans (.one first.symm)

/-- All characters can be deleted. -/
theorem deleteAll (a : List Char) : Edits a.length a [] := by
  induction a with
  | nil => exact .none
  | cons c a ih => exact .more (.delete [] a c) ih

/-- Of two sequences of edits the shorter one can be taken. -/
theorem min (h : Edits m a b) (h' : Edits n a b) : Edits (m ⊓ n) a b := by
  rcases Nat.le_total m n with hle | hle
  · rwa [Nat.min_eq_left hle]
  · rwa [Nat.min_eq_right hle]

/-- What edits are mapped to by a map that keeps each edit. -/
theorem map {f : List Char → List Char} (hf : ∀ a b, Edit a b → Edit (f a) (f b))
    (h : Edits n a b) : Edits n (f a) (f b) := by
  induction h with
  | none => exact .none
  | more first _ ih => exact .more (hf _ _ first) ih

/-- Edits can be made in the reversed texts, and only if they can be made in the texts. -/
theorem reverse_iff : Edits n a.reverse b.reverse ↔ Edits n a b := by
  refine ⟨fun h => ?_, fun h => h.map fun _ _ => Edit.reverse⟩
  simpa using h.map fun _ _ => Edit.reverse

/-- Without an edit nothing changes. -/
theorem zero_iff : Edits 0 a b ↔ a = b := by
  constructor
  · rintro ⟨⟩
    rfl
  · rintro rfl
    exact .none

end Edits

/-! ### The recurrence -/

/-- The distance of two lists of characters by their first characters. -/
def distance : List Char → List Char → Nat
  | [], b => b.length
  | c :: a, [] => (c :: a).length
  | c :: a, d :: b =>
    min (min (distance a (d :: b) + 1) (distance (c :: a) b + 1))
      (distance a b + if c = d then 0 else 1)
termination_by a b => a.length + b.length

theorem distance_nil_left (b : List Char) : distance [] b = b.length := by
  rw [distance]

theorem distance_nil_right (a : List Char) : distance a [] = a.length := by
  cases a <;> rw [distance]

theorem distance_cons_cons (c d : Char) (a b : List Char) : distance (c :: a) (d :: b) =
    min (min (distance a (d :: b) + 1) (distance (c :: a) b + 1))
      (distance a b + if c = d then 0 else 1) := by
  rw [distance]

/-- A character more on the left makes a distance at most one greater. -/
theorem distance_cons_left_le (c : Char) (a b : List Char) :
    distance (c :: a) b ≤ distance a b + 1 := by
  cases b with
  | nil => simp [distance_nil_right]
  | cons d b =>
    rw [distance_cons_cons]
    omega

/-- So does a character more on the right. -/
theorem distance_cons_right_le (a : List Char) (d : Char) (b : List Char) :
    distance a (d :: b) ≤ distance a b + 1 := by
  cases a with
  | nil => simp [distance_nil_left]
  | cons c a =>
    rw [distance_cons_cons]
    omega

/-- As many edits as the distance says turn one list into the other. -/
theorem edits_distance (a b : List Char) : Edits (distance a b) a b := by
  fun_induction distance a b with
  | case1 b => exact (Edits.deleteAll b).symm
  | case2 c a => exact .deleteAll (c :: a)
  | case3 c a d b hleft hright hboth =>
    have hdelete : Edits (distance a (d :: b) + 1) (c :: a) (d :: b) :=
      .more (.delete [] a c) hleft
    have hinsert : Edits (distance (c :: a) b + 1) (c :: a) (d :: b) :=
      hright.trans (.one (.insert [] b d))
    have hreplace : Edits (distance a b + if c = d then 0 else 1) (c :: a) (d :: b) := by
      have hrest : Edits (distance a b) (c :: a) (c :: b) := hboth.map fun _ _ => Edit.cons c
      split
      · next heq => exact heq ▸ hrest
      · exact hrest.trans (.one (.replace [] b c d))
    exact (hdelete.min hinsert).min hreplace

/-! ### No edit gains more than one -/

/-- A character less on the right makes a distance at most one greater. -/
theorem distance_le_cons_right (a : List Char) (c : Char) (b : List Char) :
    distance a b ≤ distance a (c :: b) + 1 := by
  induction a with
  | nil =>
    rw [distance_nil_left, distance_nil_left, List.length_cons]
    omega
  | cons x a ih =>
    have hleft := distance_cons_left_le x a b
    rw [distance_cons_cons]
    omega

/-- Another character on the right makes a distance at most one greater. -/
theorem distance_cons_replace_le (a : List Char) (c d : Char) (b : List Char) :
    distance a (d :: b) ≤ distance a (c :: b) + 1 := by
  induction a with
  | nil =>
    rw [distance_nil_left, distance_nil_left, List.length_cons, List.length_cons]
    omega
  | cons x a ih =>
    rw [distance_cons_cons, distance_cons_cons]
    split <;> split <;> omega

/-- What makes distances at most one greater does so behind other characters. -/
theorem distance_append_le {b c : List Char} (h : ∀ a, distance a c ≤ distance a b + 1)
    (before a : List Char) : distance a (before ++ c) ≤ distance a (before ++ b) + 1 := by
  induction before generalizing a with
  | nil => exact h a
  | cons y before ih =>
    rw [List.cons_append, List.cons_append]
    induction a with
    | nil =>
      have hempty := ih []
      rw [distance_nil_left, distance_nil_left] at hempty ⊢
      simpa using hempty
    | cons x a iha =>
      have hright := ih (x :: a)
      have hboth := ih a
      rw [distance_cons_cons, distance_cons_cons]
      omega

/-- An edit makes distances at most one greater. -/
theorem Edit.distance_le {b c : List Char} (h : Edit b c) (a : List Char) :
    distance a c ≤ distance a b + 1 := by
  cases h with
  | insert before after x =>
    exact distance_append_le (fun a => distance_cons_right_le a x after) before a
  | delete before after x =>
    exact distance_append_le (fun a => distance_le_cons_right a x after) before a
  | replace before after x y =>
    exact distance_append_le (fun a => distance_cons_replace_le a x y after) before a

/-- Edits make distances greater by no more than their number. -/
theorem Edits.distance_le {n : Nat} {b c : List Char} (h : Edits n b c) (a : List Char) :
    distance a c ≤ distance a b + n := by
  induction h with
  | none => exact Nat.le_refl _
  | more first _ ih =>
    have hfirst := first.distance_le a
    omega

/-- Every list is at no distance from itself. -/
theorem distance_self (a : List Char) : distance a a = 0 := by
  induction a with
  | nil => exact distance_nil_left []
  | cons c a ih => simp [distance_cons_cons, ih]

/-- The distance of two lists is the least number of edits that turn one into the other. -/
theorem isLeast_distance (a b : List Char) : IsLeast {n | Edits n a b} (distance a b) := by
  refine ⟨edits_distance a b, fun n h => ?_⟩
  have hle := Edits.distance_le h a
  rwa [distance_self, Nat.zero_add] at hle

/-! ### Rows -/

/-- The distances of a list from another, and from those that arise by putting the characters of a
third in front of it one by one. -/
def row (a : List Char) : List Char → List Char → List Nat
  | b, [] => [distance a b]
  | b, d :: rest => distance a b :: row a (d :: b) rest

variable (a b rest : List Char)

/-- A row begins with the first of its distances. -/
theorem row_eq_cons : row a b rest = distance a b :: (row a b rest).tail := by
  cases rest <;> rfl

/-- A row ends with the last of its distances. -/
theorem getLastD_row (n : Nat) : (row a b rest).getLastD n = distance a (rest.reverse ++ b) := by
  induction rest generalizing b n with
  | nil => rfl
  | cons d rest ih =>
    rw [row, List.getLastD_cons, ih]
    simp

/-- The distances from the empty list count up. -/
theorem row_nil : row [] b rest = List.range' b.length (rest.length + 1) := by
  induction rest generalizing b with
  | nil => simp [row, distance_nil_left]
  | cons d rest ih =>
    rw [row, ih, distance_nil_left, List.length_cons, List.range'_succ]
    simp [List.range'_succ]

/-- A row is filled from the row above it. -/
theorem fillRow_row (c : Char) :
    fillRow c (distance (c :: a) b) rest (row a b rest) = (row (c :: a) b rest).tail := by
  induction rest generalizing b with
  | nil => rfl
  | cons d rest ih =>
    rw [row, row, List.tail_cons, row_eq_cons a (d :: b) rest, fillRow, ← row_eq_cons,
      ← distance_cons_cons, ih, ← row_eq_cons]

/-- One more character of the first text leads from its row to the next one. -/
theorem nextRow_row (c : Char) : nextRow b (row a [] b) c = row (c :: a) [] b := by
  have hfirst : (row a [] b).headD 0 + 1 = distance (c :: a) [] := by
    rw [row_eq_cons, List.headD_cons, distance_nil_right, distance_nil_right, List.length_cons]
  rw [nextRow, hfirst, fillRow_row, ← row_eq_cons]

/-- All characters of the first text lead to its last row. -/
theorem foldl_nextRow (before : List Char) :
    a.foldl (nextRow b) (row before [] b) = row (a.reverse ++ before) [] b := by
  induction a generalizing before with
  | nil => rfl
  | cons c a ih =>
    rw [List.foldl_cons, nextRow_row, ih]
    simp

/-- The last entry of the last row is the distance of the reversed texts. -/
theorem distanceToShorter_eq : distanceToShorter a b = distance a.reverse b.reverse := by
  unfold distanceToShorter
  split
  · next hempty =>
    rw [List.isEmpty_iff.mp hempty, List.reverse_nil, distance_nil_right, List.length_reverse]
  · have hfirst : List.range (b.length + 1) = row [] [] b := by
      rw [row_nil, List.range_eq_range']
      rfl
    rw [hfirst, foldl_nextRow, getLastD_row, List.append_nil, List.append_nil]

/-- Row by row, the least number of edits is found. -/
theorem isLeast_distanceToShorter : IsLeast {n | Edits n a b} (distanceToShorter a b) := by
  have h := isLeast_distance a.reverse b.reverse
  simp only [Edits.reverse_iff] at h
  rwa [distanceToShorter_eq]

/-- The edit distance of two texts is the least number of edits that turn one into the other. -/
theorem isLeast_editDistance (a b : String) :
    IsLeast {n | Edits n a.toList b.toList} (editDistance a b) := by
  unfold editDistance
  split
  · -- The rows run from the second text to the first; the edits are taken back.
    have h := isLeast_distanceToShorter b.toList a.toList
    have hsymm : {n | Edits n b.toList a.toList} = {n | Edits n a.toList b.toList} :=
      Set.ext fun n => ⟨Edits.symm, Edits.symm⟩
    rwa [hsymm] at h
  · exact isLeast_distanceToShorter a.toList b.toList

/-- The edit distance is the least number of insertions, deletions and replacements of single
characters that turn one text into the other, whatever the texts. So it is a metric: it does not
depend on the order of the texts, it is zero for equal texts only, and a detour by a third text is no
shorter. -/
theorem editDistance_is_metric (a b c : String) :
    IsLeast {n | Edits n a.toList b.toList} (editDistance a b) ∧
    editDistance a b = editDistance b a ∧
    (editDistance a b = 0 ↔ a = b) ∧
    editDistance a c ≤ editDistance a b + editDistance b c := by
  obtain ⟨hab, hleast⟩ := isLeast_editDistance a b
  obtain ⟨hba, hleast'⟩ := isLeast_editDistance b a
  refine ⟨⟨hab, hleast⟩, ?_, ?_, ?_⟩
  · exact Nat.le_antisymm (hleast hba.symm) (hleast' hab.symm)
  · constructor
    · intro hzero
      rw [hzero] at hab
      exact String.toList_inj.mp (Edits.zero_iff.mp hab)
    · rintro rfl
      exact Nat.le_zero.mp (hleast (Edits.zero_iff.mpr rfl))
  · obtain ⟨hbc, _⟩ := isLeast_editDistance b c
    obtain ⟨_, hleast⟩ := isLeast_editDistance a c
    exact hleast (hab.trans hbc)

end Formulary.Resolution
