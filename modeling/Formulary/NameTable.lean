/-!
# Tables of names

A table gives values to names. It lists its names in the order in which they were first entered;
entering a name again replaces the value and leaves the name in its place. Main statements:
`get?_insert_self`, `get?_insert_of_ne`, `names_insert`, and for whole tables `mem_of_get?_ofList` and
`mem_names_ofList`.
-/

namespace Formulary

/-- Names with values, in the order of first entry. -/
structure NameTable (α : Type) where
  entries : List (String × α) := []

namespace NameTable

variable {α : Type}

/-- The value of a name in a list of entries. -/
def find? (name : String) : List (String × α) → Option α
  | [] => none
  | (n, a) :: rest => if n = name then some a else find? name rest

/-- Replace the value of a name where it stands, or add the name at the end. -/
def enter (name : String) (a : α) : List (String × α) → List (String × α)
  | [] => [(name, a)]
  | (n, b) :: rest => if n = name then (n, a) :: rest else (n, b) :: enter name a rest

/-- The value of a name. -/
def get? (t : NameTable α) (name : String) : Option α := find? name t.entries

/-- The table with a value entered for a name. -/
def insert (t : NameTable α) (name : String) (a : α) : NameTable α := ⟨enter name a t.entries⟩

/-- The table in which the given entries are made one after the other. -/
def ofList (entries : List (String × α)) : NameTable α :=
  entries.foldl (fun t entry => t.insert entry.1 entry.2) {}

/-- The names of a table, in order of first entry. -/
def names (t : NameTable α) : List String := t.entries.map Prod.fst

/-- The values of a table, in the order of their names. -/
def values (t : NameTable α) : List α := t.entries.map Prod.snd

/-- Has the name been entered? -/
def contains (t : NameTable α) (name : String) : Bool := (t.get? name).isSome

@[simp] theorem get?_empty (name : String) : ({} : NameTable α).get? name = none := rfl

/-- A name that was just entered has the value it was entered with. -/
@[simp] theorem get?_insert_self (t : NameTable α) (name : String) (a : α) :
    (t.insert name a).get? name = some a := by
  obtain ⟨entries⟩ := t
  simp only [get?, insert]
  induction entries with
  | nil => simp [enter, find?]
  | cons entry rest ih =>
    unfold enter
    split <;> simp_all [find?]

/-- Entering one name leaves the others alone. -/
theorem get?_insert_of_ne (t : NameTable α) {name other : String} (a : α) (h : other ≠ name) :
    (t.insert name a).get? other = t.get? other := by
  obtain ⟨entries⟩ := t
  simp only [get?, insert]
  induction entries with
  | nil => simp [enter, find?, Ne.symm h]
  | cons entry rest ih =>
    unfold enter
    split
    · simp_all [find?, Ne.symm h]
    · simp_all [find?]

theorem get?_insert (t : NameTable α) (name other : String) (a : α) :
    (t.insert name a).get? other = if other = name then some a else t.get? other := by
  split
  · next h => rw [h, get?_insert_self]
  · next h => exact get?_insert_of_ne t a h

/-- A name has a value exactly when it is listed. -/
theorem get?_eq_none_iff (t : NameTable α) (name : String) :
    t.get? name = none ↔ name ∉ t.names := by
  obtain ⟨entries⟩ := t
  simp only [get?, names]
  induction entries with
  | nil => simp [find?]
  | cons entry rest ih =>
    unfold find?
    split
    · simp_all
    · next h => simp [ih, Ne.symm h]

/-- Entering a name adds it at the end unless it is listed already. -/
theorem names_insert (t : NameTable α) (name : String) (a : α) :
    (t.insert name a).names = if name ∈ t.names then t.names else t.names ++ [name] := by
  obtain ⟨entries⟩ := t
  simp only [names, insert]
  induction entries with
  | nil => simp [enter]
  | cons entry rest ih =>
    unfold enter
    split
    · simp_all
    · next h =>
      have h' : name ≠ entry.1 := fun e => h e.symm
      simp only [List.map_cons, List.mem_cons, h', false_or, ih]
      split <;> simp_all

/-- A table lists its names before an entry and the name entered. -/
theorem mem_names_insert (t : NameTable α) (name other : String) (a : α) :
    other ∈ (t.insert name a).names ↔ other ∈ t.names ∨ other = name := by
  rw [names_insert]
  split
  · next h =>
    refine ⟨.inl, fun hor => ?_⟩
    rcases hor with hother | rfl
    · exact hother
    · exact h
  · simp

/-- A table made of entries lists the names of the entries. -/
theorem mem_names_ofList (entries : List (String × α)) (name : String) :
    name ∈ (ofList entries).names ↔ name ∈ entries.map Prod.fst := by
  have h (t : NameTable α) :
      name ∈ (entries.foldl (fun t entry => t.insert entry.1 entry.2) t).names ↔
        name ∈ t.names ∨ name ∈ entries.map Prod.fst := by
    induction entries generalizing t with
    | nil => simp
    | cons entry rest ih =>
      rw [List.foldl_cons, ih, mem_names_insert, List.map_cons, List.mem_cons, or_assoc]
  have hempty : name ∉ ({} : NameTable α).names := List.not_mem_nil
  rw [ofList, h, or_iff_right hempty]

/-- A value that stands in a table after entries were made was there before or is that of an entry. -/
theorem get?_foldl_insert {t : NameTable α} {entries : List (String × α)} {name : String} {a : α}
    (h : (entries.foldl (fun t entry => t.insert entry.1 entry.2) t).get? name = some a) :
    t.get? name = some a ∨ (name, a) ∈ entries := by
  induction entries generalizing t with
  | nil => exact .inl h
  | cons entry rest ih =>
    rcases ih h with hentry | hrest
    · rw [get?_insert] at hentry
      split at hentry
      · next hname =>
        obtain rfl := Option.some.inj hentry
        rw [hname]
        exact .inr List.mem_cons_self
      · exact .inl hentry
    · exact .inr (List.mem_cons_of_mem _ hrest)

/-- A value in a table made of entries is that of an entry. -/
theorem mem_of_get?_ofList {entries : List (String × α)} {name : String} {a : α}
    (h : (ofList entries).get? name = some a) : (name, a) ∈ entries :=
  (get?_foldl_insert h).resolve_left (by simp)

end NameTable

end Formulary
