import Formulary.Evaluation.Basic
import Formulary.Resolution.Basic

/-!
# Actions whose faults are foreseen

An action is `Foreseen` in a scope if, begun where the variables of the scope have values, it ends
with the same variables in force, and if a name that it fails to resolve is a known error of the
resolver. Being foreseen passes through sequences and through the opening and closing of scopes. What
is in force counts only by its names: a loop changes values all the time.
-/

namespace Formulary

namespace ResolutionCause

/-- The same class of error, the same name and the same counts; suggestions aside. -/
def Agrees : ResolutionCause → ResolutionCause → Prop
  | unknownFunction name _, unknownFunction name' _ => name = name'
  | arityMismatch name expected got, arityMismatch name' expected' got' =>
    name = name' ∧ expected = expected' ∧ got = got'
  | unknownVariable name, unknownVariable name' => name = name'
  | _, _ => False

end ResolutionCause

/-- An error found before running tells of one found while running: it has an agreeing cause, and
the same location and node. -/
def ResolutionError.Foretells (e e' : ResolutionError) : Prop :=
  e.cause.Agrees e'.cause ∧ e.location = e'.location ∧ e.node = e'.node

namespace Evaluation

/-- The names in force, scope by scope. -/
def State.names (s : State) : List (List String) := s.scopes.map NameTable.names

/-- The variables of a scope are in force. -/
def Covers (names : List (List String)) (scope : List String) : Prop :=
  ∀ name ∈ scope, ∃ frame ∈ names, name ∈ frame

/-- A variable in force has a value. -/
theorem lookup?_ne_none {name : String} {scopes : List Frame}
    (h : ∃ frame ∈ scopes.map NameTable.names, name ∈ frame) : Action.lookup? name scopes ≠ none := by
  induction scopes with
  | nil => simp at h
  | cons frame outer ih =>
    unfold Action.lookup?
    cases hframe : frame.get? name with
    | some x => simp
    | none =>
      rw [NameTable.get?_eq_none_iff] at hframe
      apply ih
      obtain ⟨names, hnames, hname⟩ := h
      rw [List.map_cons, List.mem_cons] at hnames
      rcases hnames with rfl | hnames
      · exact absurd hname hframe
      · exact ⟨names, hnames, hname⟩

/-- The contract of an outcome: a good value with the names in force that were in force, a foretold
fault, or an error of the evaluation itself. -/
def Outcome.Meets {α : Type} (errors : List ResolutionError) (good : α → Prop)
    (names : List (List String)) : Outcome α → Prop
  | .value a after => good a ∧ after.names = names
  | .fault (.unresolved e) _ => ∃ e' ∈ errors, e'.Foretells e
  | .fault (.failed _) _ => True
  | .outOfFuel => True

/-- An action whose faults are foreseen wherever the variables of a scope are in force. -/
def Action.Foreseen {α : Type} (errors : List ResolutionError) (scope : List String)
    (good : α → Prop) (a : Action α) : Prop :=
  ∀ s, Covers s.names scope → (a s).Meets errors good s.names

namespace Action.Foreseen

variable {α β : Type} {errors : List ResolutionError} {scope : List String}
  {good : α → Prop} {good' : β → Prop}

theorem pure {a : α} (h : good a) : Foreseen errors scope good (pure a : Action α) :=
  fun _ _ => ⟨h, rfl⟩

theorem outOfFuel : Foreseen errors scope good (Action.outOfFuel : Action α) := fun _ _ => trivial

theorem failed (e : EvaluationError) :
    Foreseen errors scope good (Action.stop (.failed e) : Action α) :=
  fun _ _ => trivial

theorem unresolved {e e' : ResolutionError} (hmem : e' ∈ errors) (h : e'.Foretells e) :
    Foreseen errors scope good (Action.stop (.unresolved e) : Action α) :=
  fun _ _ => ⟨e', hmem, h⟩

theorem write (text : String) {good : Unit → Prop} (h : good ()) :
    Foreseen errors scope good (Action.write text) :=
  fun _ _ => ⟨h, rfl⟩

/-- Being foreseen passes through a sequence. -/
theorem bind {a : Action α} {f : α → Action β} (ha : Foreseen errors scope good a)
    (hf : ∀ x, good x → Foreseen errors scope good' (f x)) :
    Foreseen errors scope good' (a >>= f) := by
  intro s hs
  have hmeets := ha s hs
  change (Action.bind a f s).Meets _ _ _
  unfold Action.bind
  cases has : a s with
  | value x after =>
    rw [has] at hmeets
    obtain ⟨hx, hnames⟩ := hmeets
    rw [← hnames] at hs ⊢
    exact hf x hx after hs
  | fault f after =>
    rw [has] at hmeets
    cases f <;> exact hmeets
  | outOfFuel => trivial

/-- An action in scopes of its own, of which the names in force come back afterwards. -/
theorem inScopes {a : Action α} {scope' : List String} {frames : List Frame}
    (hcovers : Covers (frames.map NameTable.names) scope') (ha : Foreseen errors scope' good a) :
    Foreseen errors scope good (Action.inScopes frames a) := by
  intro s _
  have hmeets := ha { s with scopes := frames } hcovers
  unfold Action.inScopes
  cases has : a { s with scopes := frames } with
  | value x after =>
    rw [has] at hmeets
    exact ⟨hmeets.1, rfl⟩
  | fault f after =>
    rw [has] at hmeets
    cases f <;> exact hmeets
  | outOfFuel => trivial

/-- An action in one more scope, which is closed afterwards. -/
theorem inFrame {a : Action α} {frame : Frame} {added : List String}
    (hadded : ∀ name ∈ added, name ∈ frame.names)
    (ha : Foreseen errors (added ++ scope) good a) :
    Foreseen errors scope good (Action.inFrame frame a) := by
  intro s hs
  have hcovers : Covers (State.names { s with scopes := frame :: s.scopes }) (added ++ scope) := by
    intro name hname
    rcases List.mem_append.mp hname with hname | hname
    · exact ⟨frame.names, List.mem_cons_self, hadded name hname⟩
    · obtain ⟨names, hnames, hmem⟩ := hs name hname
      exact ⟨names, List.mem_cons_of_mem _ hnames, hmem⟩
  have hmeets := ha _ hcovers
  unfold Action.inFrame
  cases has : a { s with scopes := frame :: s.scopes } with
  | value x after =>
    rw [has] at hmeets
    obtain ⟨hx, hnames⟩ := hmeets
    refine ⟨hx, ?_⟩
    have htail := congrArg List.tail hnames
    rw [State.names, ← List.map_tail] at htail
    exact htail
  | fault f after =>
    rw [has] at hmeets
    cases f <;> exact hmeets
  | outOfFuel => trivial

/-- An action as one more call under way. -/
theorem asCall {a : Action α} (ha : Foreseen errors scope good a) :
    Foreseen errors scope good (Action.asCall a) := by
  intro s hs
  have hmeets := ha { s with activeCalls := s.activeCalls + 1 } hs
  unfold Action.asCall
  cases has : a { s with activeCalls := s.activeCalls + 1 } with
  | value x after =>
    rw [has] at hmeets
    exact hmeets
  | fault f after =>
    rw [has] at hmeets
    cases f <;> exact hmeets
  | outOfFuel => trivial

/-- Adding to a variable changes no name. -/
theorem increase (name : String) (step : Float) :
    Foreseen errors scope (fun _ => True) (Action.increase name step) := by
  intro s _
  unfold Action.increase
  cases hscopes : s.scopes with
  | nil => exact ⟨trivial, rfl⟩
  | cons frame outer =>
    simp only
    cases hframe : frame.get? name with
    | none => exact ⟨trivial, rfl⟩
    | some x =>
      have hlisted : name ∈ frame.names := by
        apply Decidable.of_not_not
        rw [← NameTable.get?_eq_none_iff, hframe]
        exact Option.some_ne_none x
      refine ⟨trivial, ?_⟩
      simp only [State.names, hscopes, List.map_cons]
      rw [NameTable.names_insert, if_pos hlisted]

end Action.Foreseen

/-- Writing a character is foreseen. -/
theorem Standard.foreseen_writeCharacter {errors : List ResolutionError} {scope : List String}
    (name : String) (x : Float) :
    Action.Foreseen errors scope (fun _ => True) (writeCharacter name x) := by
  unfold writeCharacter
  split
  · exact .write _ trivial
  · exact .failed _

/-- What a standard function fails with is an error of the evaluation itself. -/
theorem Standard.foreseen_invoke {errors : List ResolutionError} {scope : List String}
    (name : String) (standard : Standard) (values : List Float) :
    Action.Foreseen errors scope (fun _ => True) (standard.invoke name values) := by
  have hnumber (x : Float) : Action.Foreseen errors scope (fun _ => True) (writeNumber x) :=
    .write _ trivial
  unfold Standard.invoke
  split
  · exact .pure trivial
  · exact .pure trivial
  · exact (hnumber _).bind fun _ _ => .pure trivial
  · exact (foreseen_writeCharacter name _).bind fun _ _ => .pure trivial
  · exact .failed _

end Evaluation

end Formulary
