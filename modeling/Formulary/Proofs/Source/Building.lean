import Formulary.Proofs.Source.WellFormed

/-!
# Programs that are built step by step

A program is built by adding statements and closed at some point. What is added after that is refused,
and whoever adds may go on with other acts. However the acts follow each other, the program holds the
statements that were added before it was closed for the first time: its lists have those of each kind
in order, and its table has the names that they declare, in the order of their first declarations,
each with the prototype of its last one. After a refusal nothing has changed.

The acts are the changes in place, in which a refusal could leave something half done.
-/

namespace Formulary

namespace NameTable

/-- Where no name is listed twice, the values are those of the names. -/
theorem values_eq_filterMap {α : Type} {t : NameTable α} (h : t.names.Nodup) :
    t.values = t.names.filterMap t.get? := by
  obtain ⟨entries⟩ := t
  simp only [values, names] at h ⊢
  induction entries with
  | nil => rfl
  | cons entry rest ih =>
    rw [List.map_cons, List.nodup_cons] at h
    obtain ⟨hnew, hrest⟩ := h
    have hfirst : get? ⟨entry :: rest⟩ entry.1 = some entry.2 := by simp [get?, find?]
    have hothers : (rest.map Prod.fst).filterMap (get? ⟨entry :: rest⟩) =
        (rest.map Prod.fst).filterMap (get? ⟨rest⟩) := by
      apply List.filterMap_congr
      intro other hother
      have hne : entry.1 ≠ other := fun heq => hnew (heq ▸ hother)
      simp [get?, find?, hne]
    rw [List.map_cons, List.map_cons, List.filterMap_cons_some hfirst, hothers, ih hrest]

end NameTable

namespace Program

/-- What is done to a program that is built. -/
inductive Act where
  | add (s : Statement)
  | close

namespace Act

/-- The change that an act makes. A refusal is an answer like another. -/
def attempt : Act → StateM Program (Except Sealed Unit)
  | add s => (Change.add s).run
  | close => Change.close.run

/-- What a sealed program answers. -/
def whenSealed : Act → Except Sealed Unit
  | add _ => .error {}
  | close => .ok ()

end Act

/-- The answers to acts one after the other, and the program after them. -/
def perform (acts : List Act) (p : Program) : List (Except Sealed Unit) × Program :=
  (acts.mapM Act.attempt).run p

/-- The statements that are added before the program is closed. -/
def accepted : List Act → List Statement
  | .add s :: rest => s :: accepted rest
  | .close :: _ | [] => []

/-- A program holds what some statements say: its lists, and its table as a whole. -/
structure Holds (p : Program) (ss : List Statement) : Prop where
  externs : p.externs = ss.filterMap Statement.foreign?
  definitions : p.definitions = ss.filterMap Statement.definition?
  expressions : p.expressions = ss.filterMap Statement.expression?
  /-- The names in the table are the declared ones, in the order of their first declarations. -/
  names : p.declarations.names =
    (ss.filterMap fun s => s.prototype?.map Prototype.name).eraseDups
  /-- A name has the prototype of its last declaration. -/
  prototype : ∀ name, p.prototype? name =
    (ss.filter (Statement.declares name)).getLast?.bind Statement.prototype?
  /-- The prototypes in the table are those of its names, in their order. -/
  signatures : p.signatures = p.declarations.names.filterMap p.prototype?

/-- The program of some statements holds them. -/
theorem holds_ofStatements (ss : List Statement) : (ofStatements ss).Holds ss where
  externs := externs_ofStatements ss
  definitions := definitions_ofStatements ss
  expressions := expressions_ofStatements ss
  names := names_ofStatements ss
  prototype := prototype?_ofStatements ss
  signatures := by
    have hnodup := (built_ofStatements ss).names_nodup
    rw [signatures, NameTable.values_eq_filterMap hnodup, List.map_filterMap]
    rfl

/-- It holds them when it is sealed, too. -/
theorem Holds.close {p : Program} {ss : List Statement} (h : p.Holds ss) : p.close.Holds ss :=
  ⟨h.externs, h.definitions, h.expressions, h.names, h.prototype, h.signatures⟩

/-- Adding statements seals nothing. -/
theorem isSealed_foldl_extend (ss : List Statement) (p : Program) :
    (ss.foldl extend p).isSealed = p.isSealed := by
  induction ss generalizing p with
  | nil => rfl
  | cons s rest ih =>
    rw [List.foldl_cons, ih]
    cases s <;> rfl

/-! ### Steps -/

section

variable {p : Program} (act : Act) (acts more : List Act)

/-- An open program takes a statement, as it does when the statement is added at once. -/
theorem attempt_add (h : p.isSealed = false) (s : Statement) :
    (Act.add s).attempt.run p = (.ok (), p.extend s) := by
  have hadd : p.add s = .ok (p.extend s) := by simp [Program.add, h]
  rw [Act.attempt, Change.run_add, hadd]

/-- A sealed program refuses a statement, and remains as it is whatever is done. -/
theorem attempt_sealed (h : p.isSealed = true) : act.attempt.run p = (act.whenSealed, p) := by
  cases act with
  | add s =>
    have hadd : p.add s = .error {} := by simp [Program.add, h]
    rw [Act.attempt, Change.run_add, hadd]
    rfl
  | close =>
    have hclose : p.close = p := by rw [Program.close, ← h]
    exact congrArg (Prod.mk (Except.ok ())) hclose

/-! ### Runs -/

/-- One act and then others. -/
theorem perform_cons : perform (act :: acts) p =
    ((act.attempt.run p).1 :: (perform acts (act.attempt.run p).2).1,
      (perform acts (act.attempt.run p).2).2) := by
  rw [perform, List.mapM_cons]
  rfl

/-- Some acts and then others. -/
theorem perform_append : perform (acts ++ more) p =
    ((perform acts p).1 ++ (perform more (perform acts p).2).1,
      (perform more (perform acts p).2).2) := by
  rw [perform, List.mapM_append]
  rfl

/-- An open program takes all statements. -/
theorem perform_add (h : p.isSealed = false) (ss : List Statement) :
    perform (ss.map .add) p = (ss.map fun _ => Except.ok (), ss.foldl extend p) := by
  induction ss generalizing p with
  | nil => rfl
  | cons s rest ih =>
    have hopen : (p.extend s).isSealed = false := (isSealed_foldl_extend [s] p).trans h
    rw [List.map_cons, perform_cons, attempt_add h, ih hopen]
    rfl

/-- A sealed program remains as it is. -/
theorem perform_sealed (h : p.isSealed = true) :
    perform acts p = (acts.map Act.whenSealed, p) := by
  induction acts with
  | nil => rfl
  | cons act rest ih =>
    rw [perform_cons, attempt_sealed act h, ih]
    rfl

/-- Once a program is closed, it remains as it is. -/
theorem perform_close : perform (.close :: more) p =
    (.ok () :: more.map Act.whenSealed, p.close) := by
  have hsealed : p.close.isSealed = true := rfl
  rw [perform_cons]
  exact congrArg (Prod.map (List.cons _) id) (perform_sealed more hsealed)

end

/-- Acts are additions that are accepted, up to the first closing. -/
theorem accepted_split (acts : List Act) : acts = (accepted acts).map .add ∨
    ∃ more, acts = (accepted acts).map .add ++ .close :: more := by
  induction acts with
  | nil => exact .inl rfl
  | cons act rest ih =>
    cases act with
    | close => exact .inr ⟨rest, rfl⟩
    | add s =>
      rcases ih with hall | ⟨more, hmore⟩
      · exact .inl (congrArg (.add s :: ·) hall)
      · exact .inr ⟨more, congrArg (.add s :: ·) hmore⟩

/-- A program that is built holds what was added before it was closed, whatever is tried afterwards.
For any acts on a new program, its lists and its table are those of the accepted statements, and it is
sealed if it was closed. The accepted statements were taken, and all that came later was answered as
by a sealed program, which refuses every statement. Once the program is closed, no act changes
anything more. -/
theorem building_holds_accepted (acts : List Act) :
    let answers := (perform acts {}).1
    let p := (perform acts {}).2
    p.Holds (accepted acts) ∧
    (p.isSealed = true ↔ .close ∈ acts) ∧
    answers = (accepted acts).map (fun _ => .ok ()) ++
      (acts.drop (accepted acts).length).map Act.whenSealed ∧
    ∀ more, perform (acts ++ .close :: more) {} =
      (answers ++ .ok () :: more.map Act.whenSealed, p.close) := by
  intro answers p
  have hopen := perform_add rfl (p := {}) (accepted acts)
  have hclosing (more : List Act) : perform (acts ++ .close :: more) {} =
      (answers ++ .ok () :: more.map Act.whenSealed, p.close) := by
    rw [perform_append, perform_close]
  rcases accepted_split acts with hall | ⟨more, hmore⟩
  · have hrun : perform acts {} = _ := (congrArg (perform · {}) hall).trans hopen
    have hanswers : answers = _ := congrArg Prod.fst hrun
    have hp : p = ofStatements (accepted acts) := congrArg Prod.snd hrun
    have hrest : acts.drop (accepted acts).length = [] := by
      have hlength := congrArg List.length hall
      rw [List.length_map] at hlength
      exact List.drop_eq_nil_of_le (Nat.le_of_eq hlength)
    have hnever : .close ∉ acts := by
      rw [hall]
      simp
    have hunsealed : p.isSealed = false :=
      (congrArg isSealed hp).trans (isSealed_foldl_extend (accepted acts) {})
    refine ⟨hp ▸ holds_ofStatements _, ?_, ?_, hclosing⟩
    · simp [hunsealed, hnever]
    · rw [hanswers, hrest, List.map_nil, List.append_nil]
  · have hrun : perform acts {} = _ := (congrArg (perform · {}) hmore).trans (perform_append _ _)
    rw [hopen, perform_close] at hrun
    have hanswers : answers = _ := congrArg Prod.fst hrun
    have hp : p = (ofStatements (accepted acts)).close := congrArg Prod.snd hrun
    have hrest : acts.drop (accepted acts).length = .close :: more :=
      (congrArg (List.drop (accepted acts).length) hmore).trans (List.drop_left' (by simp))
    refine ⟨hp ▸ (holds_ofStatements _).close, ?_, ?_, hclosing⟩
    · rw [hp, hmore]
      simp [close]
    · rw [hanswers, hrest]
      rfl

end Program

end Formulary
