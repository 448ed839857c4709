import Formulary.Proofs.Resolution.Errors
import Mathlib.Tactic.Push

/-!
# The warnings of a program

How many warnings a name draws, said without the order in which declarations are gone through. A name
that is defined several times draws one warning less than it has definitions. A name whose
declarations differ in their numbers of parameters draws a warning of each change from one
declaration to the next; declarations of other names in between do not matter, since the table of
what was last seen keeps the names apart (`map_cause_conflicts`). Where two declarations differ, there
is a change somewhere.
-/

namespace Formulary

open Resolution ResolutionWarning

/-- The name that a warning is about. -/
def WarningCause.name : WarningCause → String
  | redefinition name _ => name
  | signatureConflict name _ _ => name

namespace ResolutionWarning

/-- Does a warning have a code and is it about a name? -/
def isAbout (code name : String) (w : ResolutionWarning) : Bool :=
  w.diagnostic.code == some code && w.cause.name == name

variable (name other kind : String) (previous current : Nat) (location : Option Location)

@[simp] theorem isAbout_redefinition :
    isAbout "R101" name ⟨.redefinition other kind, location⟩ = (other == name) := rfl

@[simp] theorem isAbout_conflict :
    isAbout "R102" name ⟨.signatureConflict other previous current, location⟩ =
      (other == name) := rfl

@[simp] theorem not_isAbout_redefinition :
    isAbout "R102" name ⟨.redefinition other kind, location⟩ = false := rfl

@[simp] theorem not_isAbout_conflict :
    isAbout "R101" name ⟨.signatureConflict other previous current, location⟩ = false := rfl

end ResolutionWarning

namespace Resolution

/-! ### Redefinitions -/

/-- A definition draws a warning unless it is the first of its name. -/
theorem countP_redefinitions (name : String) (seen : List String) (ds : List Definition) :
    (redefinitions seen ds).countP (isAbout "R101" name) =
      if name ∈ seen then ds.countP (fun d => d.name == name)
      else ds.countP (fun d => d.name == name) - 1 := by
  induction ds generalizing seen with
  | nil => simp [redefinitions]
  | cons d rest ih =>
    have hrest := ih (d.name :: seen)
    rw [redefinitions]
    by_cases hname : d.name = name
    · subst hname
      rw [if_pos List.mem_cons_self] at hrest
      have hcount : (d :: rest).countP (fun e => e.name == d.name) =
          rest.countP (fun e => e.name == d.name) + 1 := List.countP_cons_of_pos (by simp)
      rw [hcount]
      split
      · rw [List.countP_cons_of_pos (by simp), hrest]
      · rw [hrest, Nat.add_sub_cancel]
    · have hmem : name ∈ d.name :: seen ↔ name ∈ seen := by simp [Ne.symm hname]
      simp only [hmem] at hrest
      rw [List.countP_cons_of_neg (by simpa using hname), ← hrest]
      split
      · exact List.countP_cons_of_neg (by simpa using hname)
      · rfl

/-- Definitions draw no warning about numbers of parameters. -/
theorem filter_conflicts_redefinitions (name : String) (seen : List String)
    (ds : List Definition) : (redefinitions seen ds).filter (isAbout "R102" name) = [] := by
  induction ds generalizing seen with
  | nil => rfl
  | cons d rest ih =>
    rw [redefinitions]
    split
    · rw [List.filter_cons_of_neg (by simp), ih]
    · exact ih _

/-- Definitions with the same prototypes draw the same warnings. -/
theorem redefinitions_congr (seen : List String) {ds ds' : List Definition}
    (h : ds'.map Definition.prototype = ds.map Definition.prototype) :
    redefinitions seen ds' = redefinitions seen ds := by
  induction ds generalizing seen ds' with
  | nil => rw [List.map_eq_nil_iff.mp h]
  | cons d rest ih =>
    obtain ⟨d', rest', rfl, hd, hrest⟩ := List.map_eq_cons_iff.mp h
    have hname : d'.name = d.name := congrArg Prototype.name hd
    rw [redefinitions, redefinitions, hname, hd, ih _ hrest]

/-! ### Conflicts -/

/-- The changes from one number to the next in a list, given the number before it if there is one. -/
def changes : Option Nat → List Nat → List (Nat × Nat)
  | _, [] => []
  | none, n :: rest => changes (some n) rest
  | some previous, n :: rest =>
    if previous = n then changes (some n) rest else (previous, n) :: changes (some n) rest

/-- After a number there is no change if it goes on. -/
theorem changes_some_eq_nil_iff (previous : Nat) (l : List Nat) :
    changes (some previous) l = [] ↔ ∀ n ∈ l, n = previous := by
  induction l generalizing previous with
  | nil => simp [changes]
  | cons n rest ih =>
    rw [changes, List.forall_mem_cons]
    by_cases heq : previous = n
    · rw [if_pos heq, ih, heq]
      simp
    · rw [if_neg heq]
      simp [Ne.symm heq]

/-- There is no change in a list if its numbers are all the same. -/
theorem changes_eq_nil_iff (l : List Nat) :
    changes none l = [] ↔ ∀ m ∈ l, ∀ n ∈ l, m = n := by
  cases l with
  | nil => simp [changes]
  | cons n rest =>
    rw [changes, changes_some_eq_nil_iff]
    constructor
    · intro hall
      have hsame : ∀ m ∈ n :: rest, m = n := List.forall_mem_cons.mpr ⟨rfl, hall⟩
      exact fun m hm m' hm' => (hsame m hm).trans (hsame m' hm').symm
    · exact fun hall m hm => hall m (List.mem_cons_of_mem _ hm) n List.mem_cons_self

/-- The last change in a list is to its last number. -/
theorem getLast?_of_changes {before : Option Nat} {l : List Nat} {previous current : Nat}
    (h : (changes before l).getLast? = some (previous, current)) : l.getLast? = some current := by
  induction l generalizing before with
  | nil =>
    rw [changes] at h
    contradiction
  | cons n rest ih =>
    have hrest (hlast : (changes (some n) rest).getLast? = some (previous, current)) :
        (n :: rest).getLast? = some current := by
      rw [List.getLast?_cons, ih hlast]
      rfl
    cases before with
    | none => exact hrest h
    | some m =>
      rw [changes] at h
      split at h
      · exact hrest h
      · rw [List.getLast?_cons] at h
        cases hlast : (changes (some n) rest).getLast? with
        | some change =>
          rw [hlast] at h
          exact hrest (hlast.trans h)
        | none =>
          -- The change is the last one, so its number goes on to the end.
          rw [hlast] at h
          obtain ⟨rfl, rfl⟩ := Prod.mk.inj (Option.some.inj h)
          have hsame := (changes_some_eq_nil_iff n rest).mp (List.getLast?_eq_none_iff.mp hlast)
          rw [List.getLast?_cons]
          cases hend : rest.getLast? with
          | none => rfl
          | some k => exact congrArg some (hsame k (List.mem_of_getLast? hend))

/-- The warnings about the numbers of parameters of a name are the changes in its declarations. -/
theorem map_cause_conflicts (name : String) (seen : NameTable Nat) (qs : List Prototype) :
    ((conflicts seen qs).filter (isAbout "R102" name)).map ResolutionWarning.cause =
      (changes (seen.get? name) ((qs.filter fun q => q.name == name).map Prototype.arity)).map
        fun change => .signatureConflict name change.1 change.2 := by
  induction qs generalizing seen with
  | nil => cases seen.get? name <;> rfl
  | cons q rest ih =>
    have hrest := ih (seen.insert q.name q.arity)
    rw [conflicts]
    by_cases hname : q.name = name
    · subst hname
      rw [NameTable.get?_insert_self] at hrest
      have hfilter : (q :: rest).filter (fun r => r.name == q.name) =
          q :: rest.filter (fun r => r.name == q.name) := List.filter_cons_of_pos (by simp)
      rw [hfilter, List.map_cons]
      cases seen.get? q.name with
      | none => exact hrest
      | some previous =>
        rw [changes]
        by_cases harity : previous = q.arity
        · rw [if_pos harity]
          simp only [if_pos harity]
          exact hrest
        · rw [if_neg harity]
          simp only [if_neg harity]
          rw [List.filter_cons_of_pos (by simp), List.map_cons, List.map_cons, hrest]
    · -- Another name is declared here; the table keeps what was last seen of this one.
      rw [NameTable.get?_insert_of_ne _ _ (Ne.symm hname)] at hrest
      rw [List.filter_cons_of_neg (by simpa using hname), ← hrest]
      split
      · rfl
      · split
        · rfl
        · rw [List.filter_cons_of_neg (by simpa using hname)]

/-- Conflicts draw no warning about redefinition. -/
theorem countP_redefinitions_conflicts (name : String) (seen : NameTable Nat)
    (qs : List Prototype) : (conflicts seen qs).countP (isAbout "R101" name) = 0 := by
  induction qs generalizing seen with
  | nil => rfl
  | cons q rest ih =>
    rw [conflicts]
    split
    · exact ih _
    · split
      · exact ih _
      · rw [List.countP_cons_of_neg (by simp), ih]

end Resolution

namespace Program

variable (p : Program) (name : String)

/-- The numbers of parameters that a program declares a name with, outside functions first. -/
def arities : List Nat := (p.prototypes.filter fun q => q.name == name).map Prototype.arity

/-- The warnings about the numbers of parameters of a name are the changes among those that it is
declared with. -/
theorem map_cause_warnings :
    (p.resolve.warnings.filter (isAbout "R102" name)).map ResolutionWarning.cause =
      (changes none (p.arities name)).map
        fun change => .signatureConflict name change.1 change.2 := by
  rw [warnings_resolve, warningsOf, List.filter_append, filter_conflicts_redefinitions,
    List.nil_append, map_cause_conflicts]
  rfl

/-- There is a warning about the numbers of parameters of a name if there is a change among them. -/
theorem exists_isAbout_conflict_iff : (∃ w ∈ p.resolve.warnings, w.isAbout "R102" name) ↔
    changes none (p.arities name) ≠ [] := by
  have hcauses := p.map_cause_warnings name
  constructor
  · rintro ⟨w, hw, habout⟩ hnil
    rw [hnil, List.map_nil, List.map_eq_nil_iff, List.filter_eq_nil_iff] at hcauses
    exact hcauses w hw habout
  · intro hne
    have hwarnings : p.resolve.warnings.filter (isAbout "R102" name) ≠ [] := by
      intro hnil
      rw [hnil, List.map_nil] at hcauses
      exact hne (List.map_eq_nil_iff.mp hcauses.symm)
    obtain ⟨w, hw⟩ := List.exists_mem_of_ne_nil _ hwarnings
    exact ⟨w, List.mem_filter.mp hw⟩

/-- Warnings about declarations are complete and minimal. A name draws one warning about redefinition
less than it has definitions, and none if it has none. It draws a warning about its numbers of
parameters exactly if two of its declarations, outside functions or definitions and anywhere in the
program, have different numbers. Programs that have the same prototypes in their lists have the same
warnings, whatever their bodies and formulas. -/
theorem warnings_complete_and_minimal :
    p.resolve.warnings.countP (isAbout "R101" name) =
      p.definitions.countP (fun d => d.name == name) - 1 ∧
    ((∃ w ∈ p.resolve.warnings, w.isAbout "R102" name) ↔
      ∃ q ∈ p.prototypes, ∃ q' ∈ p.prototypes,
        q.name = name ∧ q'.name = name ∧ q.arity ≠ q'.arity) ∧
    ∀ p' : Program, p'.externs = p.externs →
      p'.definitions.map Definition.prototype = p.definitions.map Definition.prototype →
      p'.resolve.warnings = p.resolve.warnings := by
  refine ⟨?_, ?_, ?_⟩
  · rw [warnings_resolve, warningsOf, List.countP_append, countP_redefinitions_conflicts,
      countP_redefinitions, if_neg List.not_mem_nil, Nat.add_zero]
  · rw [exists_isAbout_conflict_iff, Ne, changes_eq_nil_iff]
    push Not
    simp only [arities, List.mem_map, List.mem_filter, beq_iff_eq]
    constructor
    · rintro ⟨_, ⟨q, ⟨hq, hname⟩, rfl⟩, _, ⟨q', ⟨hq', hname'⟩, rfl⟩, hne⟩
      exact ⟨q, hq, q', hq', hname, hname', hne⟩
    · rintro ⟨q, hq, q', hq', hname, hname', hne⟩
      exact ⟨_, ⟨q, ⟨hq, hname⟩, rfl⟩, _, ⟨q', ⟨hq', hname'⟩, rfl⟩, hne⟩
  · intro p' hexterns hdefinitions
    rw [warnings_resolve, warnings_resolve, warningsOf, warningsOf, hexterns, hdefinitions,
      redefinitions_congr [] hdefinitions]

/-- A name that is defined twice, and declared outside with another parameter in between, draws a
warning of each kind, whatever the bodies are. A name whose only definition agrees with the function
from outside draws none. -/
theorem warnings_complete_two_names :
    let p : Program := .ofStatements [
      .definition ⟨⟨"f", ["x"], none⟩, .var "x" none⟩,
      .foreign ⟨"g", ["y"], none⟩,
      .foreign ⟨"f", ["x", "y"], none⟩,
      .definition ⟨⟨"g", ["z"], none⟩, .var "z" none⟩,
      .definition ⟨⟨"f", ["z"], none⟩, .var "z" none⟩]
    let q : Program := { p with
      definitions := p.definitions.map fun d => { d with body := .call "h" [] none }
      expressions := [.call "f" [] none] }
    p.resolve.warnings.countP (isAbout "R101" "f") = 1 ∧
      p.resolve.warnings.countP (isAbout "R101" "g") = 0 ∧
      (∃ w ∈ p.resolve.warnings, w.isAbout "R102" "f") ∧
      (¬ ∃ w ∈ p.resolve.warnings, w.isAbout "R102" "g") ∧
      q.resolve.warnings = p.resolve.warnings := by
  intro p q
  obtain ⟨hf, hf', hbodies⟩ := warnings_complete_and_minimal p "f"
  obtain ⟨hg, hg', _⟩ := warnings_complete_and_minimal p "g"
  exact ⟨hf.trans (by decide), hg.trans (by decide), hf'.mpr (by decide),
    hg'.not.mpr (by decide), hbodies q rfl rfl⟩

end Program

end Formulary
