import Formulary.Evaluation.Basic

/-!
# Programs that were built

A program is `Built` if its statements were added one by one. In such a program a declaration in
force that is a definition is one of the list of definitions, at the place that its rank says, and
an evaluator made for the program runs its body for its name, and no other.
-/

namespace Formulary

/-- A program whose statements were added one by one; it may have been sealed. -/
inductive Program.Built : Program → Prop where
  | empty : Built {}
  | extend {p : Program} (h : Built p) (s : Statement) : Built (p.extend s)
  | close {p : Program} (h : Built p) : Built p.close

namespace Program

/-- The program of a list of statements is built. -/
theorem built_ofStatements (ss : List Statement) : (ofStatements ss).Built := by
  have h (p : Program) (hp : p.Built) : (ss.foldl extend p).Built := by
    induction ss generalizing p with
    | nil => exact hp
    | cons s rest ih => exact ih _ (hp.extend s)
  exact h {} .empty

/-- A definition in force is in the list of definitions, at its rank and under its name. -/
theorem Built.definition_of_rank {p : Program} (h : p.Built) {name : String} {d : Definition}
    {rank : Nat} (hd : p.declaration? name = some (.definition d rank)) :
    p.definitions[rank]? = some d ∧ d.name = name := by
  induction h with
  | empty => contradiction
  | close _ ih => exact ih hd
  | @extend p _ s ih =>
    cases s with
    | foreign q =>
      rw [declaration?, Program.extend, NameTable.get?_insert] at hd
      split at hd
      · cases hd
      · exact ih hd
    | definition d' =>
      rw [declaration?, Program.extend, NameTable.get?_insert] at hd
      split at hd
      · next hname =>
        cases hd
        refine ⟨?_, hname.symm⟩
        simp [Program.extend]
      · obtain ⟨hrank, hname⟩ := ih hd
        refine ⟨?_, hname⟩
        obtain ⟨hlt, _⟩ := List.getElem?_eq_some_iff.mp hrank
        rw [Program.extend, List.getElem?_append_left hlt, hrank]
    | expression e => exact ih hd

end Program

/-- What an evaluator knows of a program are its definitions, by name and with their ranks. -/
theorem Evaluator.known_of_get? {p : Program} {name : String} {d : Definition} {rank : Nat}
    (h : (definitionsOf p).get? name = some (d, rank)) :
    p.definitions[rank]? = some d ∧ d.name = name := by
  obtain ⟨⟨d', rank'⟩, hmem, heq⟩ := List.mem_map.mp (NameTable.mem_of_get?_ofList h)
  cases heq
  exact ⟨List.mem_zipIdx_iff_getElem?.mp hmem, rfl⟩

/-- The definition that a call runs is one of the program, with the prototype in force. -/
theorem Evaluator.definition?_of_built {p : Program} (h : p.Built) {ev : Evaluator}
    (hknown : ev.known = definitionsOf p) {name : String} {d : Definition}
    (hd : ev.definition? p name = some d) :
    d ∈ p.definitions ∧ p.prototype? name = some d.prototype := by
  unfold definition? at hd
  split at hd
  · next d₁ rank d₂ knownRank hdeclared hget =>
    split at hd
    · next hrank =>
      obtain rfl := Option.some.inj hd
      rw [hknown] at hget
      obtain ⟨hat, _⟩ := known_of_get? hget
      obtain ⟨hat', _⟩ := h.definition_of_rank hdeclared
      rw [hrank, hat] at hat'
      obtain rfl := Option.some.inj hat'
      refine ⟨List.mem_of_getElem? hat, ?_⟩
      rw [Program.prototype?, hdeclared]
      rfl
    · contradiction
  · contradiction

/-- One more definition is known under its name. -/
theorem Evaluator.definitionsOf_extend (p : Program) (d : Definition) :
    definitionsOf (p.extend (.definition d)) =
      (definitionsOf p).insert d.name (d, p.definitions.length) := by
  simp [definitionsOf, Program.extend, NameTable.ofList, List.zipIdx_append]

/-- A definition in force is known, with its rank. -/
theorem Evaluator.known_of_declaration? {p : Program} (h : p.Built) {name : String} {d : Definition}
    {rank : Nat} (hd : p.declaration? name = some (.definition d rank)) :
    (definitionsOf p).get? name = some (d, rank) := by
  induction h with
  | empty => contradiction
  | close _ ih => exact ih hd
  | @extend p _ s ih =>
    cases s with
    | foreign q =>
      rw [Program.declaration?, Program.extend, NameTable.get?_insert] at hd
      split at hd
      · cases hd
      · exact ih hd
    | definition d' =>
      rw [Program.declaration?, Program.extend, NameTable.get?_insert] at hd
      rw [definitionsOf_extend, NameTable.get?_insert]
      split at hd
      · next hname =>
        cases hd
        rw [if_pos hname]
      · next hname =>
        rw [if_neg hname]
        exact ih hd
    | expression e => exact ih hd

/-- An evaluator made for a program runs the declaration in force, if that is a definition. -/
theorem Evaluator.definition?_ofProgram {p : Program} (h : p.Built)
    (added : NameTable (List Float → Evaluation.Routine)) (callLimit : Int) (printsResults : Bool)
    (name : String) : (ofProgram p added callLimit printsResults).definition? p name =
      match p.declaration? name with
      | some (.definition d _) => some d
      | _ => none := by
  unfold definition?
  cases hdeclared : p.declaration? name with
  | none => rfl
  | some declared =>
    cases declared with
    | foreign q => rfl
    | definition d rank =>
      have hknown : (ofProgram p added callLimit printsResults).known.get? name = some (d, rank) :=
        known_of_declaration? h hdeclared
      simp [hknown]

end Formulary
