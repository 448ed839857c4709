import Formulary.Proofs.Resolution.Warnings
import Formulary.Proofs.Source.Concatenation

/-!
# The signature that a conflict names

A warning about the numbers of parameters of a name says that it was redeclared, with how many
parameters, and how many it had before. Calls are checked against the declaration that is last in the
source. The warnings come from another order, in which functions from outside stand before all
definitions. So the last warning about a name tells the signature in force, unless the name is
overridden: declared outside after it was defined. Then it tells that of the last definition.
-/

namespace Formulary

open Resolution ResolutionWarning

namespace Program

variable {ss : List Statement} {name : String}

/-- The prototypes of a name are those of its declarations in canonical order. -/
theorem filter_prototypes (p : Program) (name : String) :
    p.prototypes.filter (fun q => q.name == name) =
      (p.statements.filter (Statement.declares name)).filterMap Statement.prototype? := by
  rw [filter_declares_statements, prototypes, List.filter_append, List.filter_map,
    List.filterMap_append, List.filterMap_map, List.filterMap_map]
  congr 1
  · exact List.filterMap_some.symm
  · exact (congrFun List.filterMap_eq_map _).symm

/-- The last prototype of a name is that of its last declaration. -/
theorem getLast?_filterMap_prototype? (ss : List Statement) (name : String) :
    ((ss.filter (Statement.declares name)).filterMap Statement.prototype?).getLast? =
      (ss.filter (Statement.declares name)).getLast?.bind Statement.prototype? := by
  cases hlast : (ss.filter (Statement.declares name)).getLast? with
  | none =>
    rw [List.getLast?_eq_none_iff.mp hlast]
    rfl
  | some s =>
    have hdeclares := (List.mem_filter.mp (List.mem_of_getLast? hlast)).2
    obtain ⟨q, hq⟩ := Statement.exists_prototype hdeclares
    obtain ⟨before, hsplit⟩ := List.getLast?_eq_some_iff.mp hlast
    rw [hsplit, List.filterMap_append, List.filterMap_cons_some hq, List.filterMap_nil,
      List.getLast?_concat, Option.bind_some, hq]

/-- The prototype in force for a name that is not overridden is the last one, where functions from
outside stand before definitions. -/
theorem getLast?_prototypes (h : ¬ (ofStatements ss).close.Overridden name) :
    ((ofStatements ss).close.prototypes.filter fun q => q.name == name).getLast? =
      (ofStatements ss).close.prototype? name := by
  rw [filter_prototypes, getLast?_filterMap_prototype?, getLast?_canonical h]
  exact (prototype?_ofStatements ss name).symm

/-- The last prototype of a name that is defined is that of its last definition, where functions from
outside stand before definitions. -/
theorem getLast?_prototypes_of_defined (p : Program) {d : Definition} (hd : d ∈ p.definitions) :
    ∃ last, (p.definitions.filter fun e => e.name == d.name).getLast? = some last ∧
      (p.prototypes.filter fun q => q.name == d.name).getLast? = some last.prototype := by
  have hmem : d ∈ p.definitions.filter fun e => e.name == d.name :=
    List.mem_filter.mpr ⟨hd, beq_self_eq_true d.name⟩
  cases hlast : (p.definitions.filter fun e => e.name == d.name).getLast? with
  | none =>
    rw [List.getLast?_eq_none_iff.mp hlast] at hmem
    contradiction
  | some last =>
    refine ⟨last, rfl, ?_⟩
    rw [filter_prototypes, getLast?_filterMap_prototype?, getLast?_canonical_definition hlast]
    rfl

/-- The last warning about the numbers of parameters of a name tells that of its last prototype, where
functions from outside stand before definitions. -/
theorem last_conflict {p : Program} {name : String} {w : ResolutionWarning}
    (h : (p.resolve.warnings.filter (isAbout "R102" name)).getLast? = some w) :
    ∃ previous last, w.cause = .signatureConflict name previous last.arity ∧
      (p.prototypes.filter fun q => q.name == name).getLast? = some last := by
  have hcause := congrArg List.getLast? (p.map_cause_warnings name)
  rw [List.getLast?_map, List.getLast?_map, h, Option.map_some] at hcause
  obtain ⟨⟨previous, current⟩, hchange, hw⟩ := Option.map_eq_some_iff.mp hcause.symm
  have hlast := getLast?_of_changes hchange
  rw [arities, List.getLast?_map] at hlast
  obtain ⟨last, hprototype, rfl⟩ := Option.map_eq_some_iff.mp hlast
  exact ⟨previous, last, hw.symm, hprototype⟩

/-- The last warning about the numbers of parameters of a name tells the number that calls are checked
against, in every program that was read, unless the name is overridden. If it is, the warning tells
the number of its last definition. -/
theorem last_conflict_tells_signature {source filename : String} {limit : Int} {p : Program}
    (h : ofSource source filename limit = .ok p) {name : String} {w : ResolutionWarning}
    (hw : (p.resolve.warnings.filter (isAbout "R102" name)).getLast? = some w) :
    ∃ previous current q, w.cause = .signatureConflict name previous current ∧
      p.prototype? name = some q ∧
      (¬ p.Overridden name → q.arity = current) ∧
      (p.Overridden name →
        ∃ d, (p.definitions.filter fun d => d.name == name).getLast? = some d ∧
          d.prototype.arity = current) := by
  obtain ⟨ss, rfl⟩ := exists_ofStatements h
  obtain ⟨previous, last, hcause, hlast⟩ := last_conflict hw
  by_cases hname : (ofStatements ss).close.Overridden name
  · obtain ⟨⟨f, hf⟩, d, hd, rfl⟩ := id hname
    obtain ⟨d', hd', hlast'⟩ := getLast?_prototypes_of_defined _ hd
    obtain rfl := Option.some.inj (hlast'.symm.trans hlast)
    have hforce : (ofStatements ss).close.prototype? d.name = some f :=
      congrArg (Option.map Declaration.prototype) hf
    exact ⟨previous, _, f, hcause, hforce, fun hnot => absurd hname hnot, fun _ => ⟨d', hd', rfl⟩⟩
  · rw [getLast?_prototypes hname] at hlast
    exact ⟨previous, _, last, hcause, hlast, fun _ => rfl, fun hover => absurd hover hname⟩

/-- A function from outside between two definitions overrides neither for good. -/
theorem last_conflict_tells_signature_redefined :
    ∃ p w q, ofSource "def f(x) x; extern f(a b); def f(a b c) a;" "f.k" 1 = .ok p ∧
      (p.resolve.warnings.filter (isAbout "R102" "f")).getLast? = some w ∧
      w.cause = .signatureConflict "f" 1 3 ∧ p.prototype? "f" = some q ∧ q.arity = 3 := by
  have hread : ∃ p ∈ (ofSource "def f(x) x; extern f(a b); def f(a b c) a;" "f.k" 1).toOption,
      ((p.resolve.warnings.filter (isAbout "R102" "f")).getLast?).map ResolutionWarning.cause =
        some (.signatureConflict "f" 1 3) ∧ ¬ p.Overridden "f" := by
    decide +kernel
  obtain ⟨p, hp, hlast, hnot⟩ := exists_of_toOption hread
  obtain ⟨w, hw, hcause⟩ := Option.map_eq_some_iff.mp hlast
  obtain ⟨previous, current, q, hcause', hq, harity, _⟩ := last_conflict_tells_signature hp hw
  obtain ⟨_, _, rfl⟩ := WarningCause.signatureConflict.inj (hcause.symm.trans hcause')
  exact ⟨p, w, q, hp, hw, hcause, hq, harity hnot⟩

/-- If a name is overridden, the last warning about it may tell a number of parameters that calls are
not checked against: here one, where two are in force. -/
theorem last_conflict_misleads :
    ∃ p, ofSource "def f(x) x;\nextern f(a b);\nf(1, 2);" "<string>" 128 = .ok p ∧
      p.resolve.warnings.map ResolutionWarning.cause = [.signatureConflict "f" 2 1] ∧
      (p.prototype? "f").map Prototype.arity = some 2 ∧ p.resolve.errors.length = 0 :=
  exists_of_toOption (by decide +kernel)

end Program

end Formulary
