import Formulary.Proofs.Evaluation.Active
import Formulary.Proofs.Source.Declared

/-!
# Programs that change under their evaluators

An evaluator knows the definitions that its program had when it was made; the program may be
declared more afterwards, and a call looks at the declaration in force then. The two agree on a
definition, and its body runs, exactly if it is the last declaration of its name and was there
already when the evaluator was made (`InForce`). In every other case a declared name stands for a
function from outside.
-/

namespace Formulary

open Evaluation

/-! ### The definition in force -/

namespace Program

/-- A definition is the last declaration of its name among some statements and later ones, and is
not one of the later ones. -/
def InForce (statements later : List Statement) (d : Definition) : Prop :=
  ∃ older newer, statements = older ++ .definition d :: newer ∧
    ∀ s ∈ newer ++ later, s.declares d.name = false

/-- A definition is the last declaration of its name among statements if none is declared behind it.
-/
theorem getLast?_declares_iff {ss : List Statement} {d : Definition} :
    (ss.filter (Statement.declares d.name)).getLast? = some (.definition d) ↔
      InForce ss [] d := by
  rw [List.getLast?_filter, List.find?_eq_some_iff_append]
  constructor
  · rintro ⟨_, newer, older, hsplit, hnone⟩
    refine ⟨older.reverse, newer.reverse, ?_, ?_⟩
    · rw [← ss.reverse_reverse, hsplit]
      simp
    · simpa using hnone
  · rintro ⟨older, newer, rfl, hnone⟩
    refine ⟨beq_self_eq_true d.name, newer.reverse, older.reverse, by simp, ?_⟩
    simpa using hnone

/-- A statement that does not declare a name leaves its declaration. -/
theorem declaration?_extend {p : Program} {s : Statement} {name : String}
    (h : s.declares name = false) : (p.extend s).declaration? name = p.declaration? name := by
  cases s with
  | expression e => rfl
  | foreign q =>
    have hname : name ≠ q.name := fun heq => beq_eq_false_iff_ne.mp h heq.symm
    exact NameTable.get?_insert_of_ne _ _ hname
  | definition d =>
    have hname : name ≠ d.name := fun heq => beq_eq_false_iff_ne.mp h heq.symm
    exact NameTable.get?_insert_of_ne _ _ hname

/-- So do many. -/
theorem declaration?_foldl_extend {p : Program} {later : List Statement} {name : String}
    (h : ∀ s ∈ later, s.declares name = false) :
    (later.foldl extend p).declaration? name = p.declaration? name := by
  induction later generalizing p with
  | nil => rfl
  | cons s rest ih =>
    rw [List.forall_mem_cons] at h
    rw [List.foldl_cons, ih h.2, declaration?_extend h.1]

/-- Statements take no definition away. -/
theorem length_definitions_le (p : Program) (later : List Statement) :
    p.definitions.length ≤ (later.foldl extend p).definitions.length := by
  induction later generalizing p with
  | nil => exact Nat.le_refl _
  | cons s rest ih =>
    refine Nat.le_trans ?_ (ih (p.extend s))
    cases s <;> simp [extend]

/-- A definition that was declared later has all earlier definitions before it. -/
theorem le_rank_of_declares {p : Program} {later : List Statement} {name : String} {d : Definition}
    {rank : Nat} (h : (later.foldl extend p).declaration? name = some (.definition d rank))
    (hlater : ∃ s ∈ later, s.declares name = true) : p.definitions.length ≤ rank := by
  induction later generalizing p with
  | nil =>
    obtain ⟨s, hs, _⟩ := hlater
    contradiction
  | cons s rest ih =>
    rw [List.foldl_cons] at h
    by_cases hrest : ∃ s ∈ rest, s.declares name = true
    · exact Nat.le_trans (length_definitions_le p [s]) (ih h hrest)
    · have hnone : ∀ s ∈ rest, s.declares name = false := by simpa using hrest
      have hs : s.declares name = true := by
        obtain ⟨s', hs', hdeclares⟩ := hlater
        rcases List.mem_cons.mp hs' with rfl | hmem
        · exact hdeclares
        · exact absurd ⟨s', hmem, hdeclares⟩ hrest
      rw [declaration?_foldl_extend hnone] at h
      cases s with
      | expression e => contradiction
      | foreign q =>
        rw [declaration?, extend, ← beq_iff_eq.mp hs, NameTable.get?_insert_self] at h
        cases h
      | definition d' =>
        rw [declaration?, extend, ← beq_iff_eq.mp hs, NameTable.get?_insert_self] at h
        cases h
        exact Nat.le_refl _

end Program

namespace Evaluator

/-- What an evaluator runs for a name when more has been declared since it was made: the definition
in force, if it was there then. -/
theorem definition?_iff {ss later : List Statement} {p : Program} {name : String}
    (hp : p.declaration? name = (later.foldl Program.extend (.ofStatements ss)).declaration? name)
    {ev : Evaluator} (hknown : ev.known = definitionsOf (.ofStatements ss)) {d : Definition} :
    ev.definition? p name = some d ↔ d.name = name ∧ Program.InForce ss later d := by
  have hbuilt := Program.built_ofStatements ss
  have hlast := Program.declaration?_ofStatements ss name
  constructor
  · intro h
    unfold definition? at h
    split at h
    · next d₁ rank d₂ knownRank hdeclared hget =>
      split at h
      · next hrank =>
        subst hrank
        obtain rfl := Option.some.inj h
        rw [hknown] at hget
        obtain ⟨hat, rfl⟩ := known_of_get? hget
        rw [hp] at hdeclared
        -- A later declaration would have a greater rank than any definition that is known.
        have hnone : ∀ s ∈ later, s.declares d₂.name = false := by
          by_contra hlater
          push Not at hlater
          obtain ⟨s, hs, hdeclares⟩ := hlater
          have hle := Program.le_rank_of_declares hdeclared ⟨s, hs, by simpa using hdeclares⟩
          obtain ⟨hlt, _⟩ := List.getElem?_eq_some_iff.mp hat
          exact Nat.not_le_of_lt hlt hle
        rw [Program.declaration?_foldl_extend hnone] at hdeclared
        obtain ⟨hat', _⟩ := hbuilt.definition_of_rank hdeclared
        obtain rfl := Option.some.inj (hat.symm.trans hat')
        rw [hdeclared] at hlast
        obtain ⟨older, newer, hsplit, hnewer⟩ := Program.getLast?_declares_iff.mp hlast.symm
        refine ⟨rfl, older, newer, hsplit, ?_⟩
        rw [List.append_nil] at hnewer
        exact List.forall_mem_append.mpr ⟨hnewer, hnone⟩
      · contradiction
    · contradiction
  · rintro ⟨rfl, older, newer, hsplit, hnone⟩
    obtain ⟨hnewer, hlater⟩ := List.forall_mem_append.mp hnone
    have hss : Program.InForce ss [] d := ⟨older, newer, hsplit, by rwa [List.append_nil]⟩
    rw [Program.getLast?_declares_iff.mpr hss] at hlast
    obtain ⟨declaration, hdeclaration, hstatement⟩ := Option.map_eq_some_iff.mp hlast
    cases declaration with
    | foreign q => cases hstatement
    | definition d' rank =>
      obtain rfl := Statement.definition.inj hstatement
      rw [Program.declaration?_foldl_extend hlater, hdeclaration] at hp
      unfold definition?
      rw [hp, hknown, known_of_declaration? hbuilt hdeclaration]
      exact if_pos rfl

/-- Nothing happens in a call that leads to a fault but that it stops with it. -/
theorem callTraced_fault {ev : Evaluator} {p : Program} {node : Option Expr} {name : String}
    {values : List Float} {f : Fault} (h : ev.target p node name values = .fault f) (fuel : Nat)
    (s : State) : (callTraced ev p (fuel + 1) node name values).events s = [] ∧
      call ev p (fuel + 1) node name values s = Outcome.ended (.error f) s := by
  rw [callTraced, call_succ, h]
  exact ⟨rfl, rfl⟩

end Evaluator

/-! ### A program and its evaluators -/

/-- A program, and the evaluators that have been made for it, each with its state. -/
structure Bench where
  program : Program := {}
  evaluators : List (Evaluator × State) := []

namespace Bench

/-- What can be done with a program and its evaluators: add a statement, close the program, make an
evaluator for it as it stands, and use one of them. -/
inductive Act where
  | add (s : Statement)
  | close
  | build (added : NameTable (List Float → Routine)) (callLimit : Int) (printsResults : Bool)
  | use (i : Nat) (use : Evaluator.Use)

/-- The statements that are added, in order. -/
def statements (acts : List Act) : List Statement :=
  acts.filterMap fun
    | .add s => some s
    | _ => none

/-- What one act does. A closed program takes no statement; a use ends, with a result or a fault. -/
inductive Takes : Bench → Act → Bench → Prop where
  | add {b s p} (taken : b.program.add s = .ok p) : Takes b (.add s) { b with program := p }
  | close {b} : Takes b .close { b with program := b.program.close }
  | build {b added callLimit printsResults} :
    Takes b (.build added callLimit printsResults) { b with evaluators :=
      b.evaluators ++ [(.ofProgram b.program added callLimit printsResults, {})] }
  | use {b i ev s use fuel r after} (there : b.evaluators[i]? = some (ev, s))
    (ended : Evaluator.Use.perform ev b.program fuel use s = .ended r after) :
    Takes b (.use i use) { b with evaluators := b.evaluators.set i (ev, after) }

/-- What acts do one after the other. -/
inductive Reaches : Bench → List Act → Bench → Prop where
  | nil {b} : Reaches b [] b
  | cons {b b' last act rest} (first : Takes b act b') (others : Reaches b' rest last) :
    Reaches b (act :: rest) last

/-- Whether a program is sealed does not matter to what statements declare. -/
theorem foldl_extend_sealed (p : Program) (isSealed : Bool) (ss : List Statement) :
    ss.foldl Program.extend { p with isSealed } = { ss.foldl Program.extend p with isSealed } := by
  induction ss generalizing p with
  | nil => rfl
  | cons s rest ih =>
    rw [List.foldl_cons, List.foldl_cons, ← ih]
    cases s <;> rfl

variable {b b' : Bench} {act : Act} {acts : List Act}

/-- The program is that of the statements that were added. -/
theorem Reaches.program_eq (h : Reaches b acts b') :
    ∃ isSealed, b'.program = { (statements acts).foldl Program.extend b.program with isSealed } := by
  induction h with
  | @nil b => exact ⟨b.program.isSealed, rfl⟩
  | @cons b b' last act rest first others ih =>
    obtain ⟨isSealed, ih⟩ := ih
    refine ⟨isSealed, ih.trans ?_⟩
    cases first with
    | @add s p taken =>
      unfold Program.add at taken
      split at taken
      · contradiction
      · cases taken
        rfl
    | close =>
      rw [Program.close, foldl_extend_sealed]
      rfl
    | build => rfl
    | use there ended => rfl

/-- An evaluator stays where it is. -/
theorem Takes.evaluator (h : Takes b act b') {i : Nat} {ev : Evaluator}
    (hi : (b.evaluators.map Prod.fst)[i]? = some ev) :
    (b'.evaluators.map Prod.fst)[i]? = some ev := by
  cases h with
  | add taken => exact hi
  | close => exact hi
  | build =>
    rw [List.map_append, List.getElem?_append_left (List.getElem?_eq_some_iff.mp hi).1]
    exact hi
  | @use j ev' s use fuel r after there ended =>
    rw [List.map_set, List.getElem?_set]
    split
    · next heq =>
      subst heq
      rw [List.getElem?_map, there] at hi
      rw [if_pos (by simpa using (List.getElem?_eq_some_iff.mp there).1)]
      exact hi
    · exact hi

/-- It stays there whatever is done. -/
theorem Reaches.evaluator (h : Reaches b acts b') {i : Nat} {ev : Evaluator}
    (hi : (b.evaluators.map Prod.fst)[i]? = some ev) :
    (b'.evaluators.map Prod.fst)[i]? = some ev := by
  induction h with
  | nil => exact hi
  | cons first others ih => exact ih (first.evaluator hi)

end Bench

section

variable {before after : List Bench.Act} {b₀ b : Bench} {added : NameTable (List Float → Routine)}
  {callLimit : Int} {printsResults : Bool}
  (hafter : Bench.Reaches b₀ (.build added callLimit printsResults :: after) b)

include hafter

/-- An evaluator that is made takes the next place and keeps it. -/
theorem Bench.evaluator_of_build : (b.evaluators.map Prod.fst)[b₀.evaluators.length]? =
    some (.ofProgram b₀.program added callLimit printsResults) := by
  cases hafter with
  | cons first others =>
    apply others.evaluator
    cases first with
    | build => simp

/-- It runs the definitions in force that it found when it was made. -/
theorem Bench.definition?_of_build (hbefore : Bench.Reaches {} before b₀) (name : String)
    (d : Definition) :
    (Evaluator.ofProgram b₀.program added callLimit printsResults).definition? b.program name =
        some d ↔
      d.name = name ∧ Program.InForce (Bench.statements before) (Bench.statements after) d := by
  obtain ⟨isSealed₀, h₀⟩ := hbefore.program_eq
  obtain ⟨isSealed, h⟩ := hafter.program_eq
  rw [h₀, Bench.foldl_extend_sealed] at h
  apply Evaluator.definition?_iff
  · rw [h]
    rfl
  · change Evaluator.definitionsOf b₀.program = _
    rw [h₀]
    rfl

end

namespace Evaluator

end Evaluator

end Formulary
