import Formulary.Expr.Source
import Formulary.Proofs.Descent.Programs

/-!
# Declarations in canonical order

The declaration in force for a name is the last one of the name among the statements. Canonical text
puts all outside functions before all definitions, and so it changes which one is last for a name
that is declared outside after it was defined: such a name is `Overridden`, and behind the canonical
text its definition is in force again. Every other name keeps its declaration.
-/

namespace Formulary

/-- Is a statement a declaration of a name? -/
def Statement.declares (name : String) : Statement → Bool
  | .foreign q => q.name == name
  | .definition d => d.name == name
  | .expression _ => false

/-- The statement that made a declaration. -/
def Declaration.statement : Declaration → Statement
  | foreign q => .foreign q
  | definition d _ => .definition d

/-- Spans do not matter to what a statement declares. -/
theorem Statement.declares_bare (name : String) (s : Statement) :
    s.bare.declares name = s.declares name := by
  cases s <;> rfl

namespace Program

/-- The statement in force for a name, without its spans. -/
def declared (p : Program) (name : String) : Option Statement :=
  (p.declaration? name).map fun d => d.statement.bare

/-- The declaration in force is the last one of its name. -/
theorem declaration?_ofStatements (ss : List Statement) (name : String) :
    ((ofStatements ss).declaration? name).map Declaration.statement =
      (ss.filter (Statement.declares name)).getLast? := by
  have hstep (p : Program) (s : Statement) :
      ((p.extend s).declaration? name).map Declaration.statement =
        if s.declares name then some s else (p.declaration? name).map Declaration.statement := by
    cases s with
    | expression e => rfl
    | foreign q =>
      rw [declaration?, extend, NameTable.get?_insert, Statement.declares]
      by_cases hname : name = q.name
      · rw [if_pos hname, if_pos (beq_iff_eq.mpr hname.symm)]
        rfl
      · rw [if_neg hname, if_neg fun h => hname (beq_iff_eq.mp h).symm]
        rfl
    | definition d =>
      rw [declaration?, extend, NameTable.get?_insert, Statement.declares]
      by_cases hname : name = d.name
      · rw [if_pos hname, if_pos (beq_iff_eq.mpr hname.symm)]
        rfl
      · rw [if_neg hname, if_neg fun h => hname (beq_iff_eq.mp h).symm]
        rfl
  have hfold (p : Program) : ((ss.foldl extend p).declaration? name).map Declaration.statement =
      (ss.filter (Statement.declares name)).getLast?.or
        ((p.declaration? name).map Declaration.statement) := by
    induction ss generalizing p with
    | nil => rfl
    | cons s rest ih =>
      rw [List.foldl_cons, ih, hstep, List.filter_cons]
      split
      · rw [List.getLast?_cons]
        cases (rest.filter (Statement.declares name)).getLast? <;> rfl
      · rfl
  exact (hfold {}).trans (by cases (ss.filter (Statement.declares name)).getLast? <;> rfl)

/-- Without spans it depends on the statements without theirs. -/
theorem declared_close_ofStatements (ss : List Statement) (name : String) :
    (ofStatements ss).close.declared name =
      ((ss.map Statement.bare).filter (Statement.declares name)).getLast? := by
  have hdeclares : Statement.declares name ∘ Statement.bare = Statement.declares name :=
    funext fun s => s.declares_bare name
  have hlast := declaration?_ofStatements ss name
  rw [List.filter_map, hdeclares, List.getLast?_map, ← hlast, Option.map_map]
  rfl

section

variable {p q : Program} {name : String} (h : p.declared name = q.declared name)

include h

/-- A name with the same statement in force is undeclared in both programs, an outside function in
both, or defined in both. -/
theorem declared_cases :
    (p.declaration? name = none ∧ q.declaration? name = none) ∨
    (∃ f f', p.declaration? name = some (.foreign f) ∧ q.declaration? name = some (.foreign f') ∧
      f.bare = f'.bare) ∨
    ∃ d rank d' rank', p.declaration? name = some (.definition d rank) ∧
      q.declaration? name = some (.definition d' rank') ∧ d.bare = d'.bare := by
  unfold declared at h
  cases hp : p.declaration? name with
  | none =>
    cases hq : q.declaration? name with
    | none => exact .inl ⟨rfl, rfl⟩
    | some b => simp [hp, hq] at h
  | some a =>
    cases hq : q.declaration? name with
    | none => simp [hp, hq] at h
    | some b =>
      rw [hp, hq, Option.map_some, Option.map_some] at h
      have hbare := Option.some.inj h
      cases a with
      | foreign f =>
        cases b with
        | foreign f' => exact .inr (.inl ⟨f, f', rfl, rfl, Statement.foreign.inj hbare⟩)
        | definition d' rank' => cases hbare
      | definition d rank =>
        cases b with
        | foreign f' => cases hbare
        | definition d' rank' =>
          exact .inr (.inr ⟨d, rank, d', rank', rfl, rfl, Statement.definition.inj hbare⟩)

/-- It has the same prototype. -/
theorem prototype?_of_declared :
    (p.prototype? name).map Prototype.bare = (q.prototype? name).map Prototype.bare := by
  unfold Program.prototype?
  rcases declared_cases h with ⟨hp, hq⟩ | ⟨f, f', hp, hq, hf⟩ | ⟨d, _, d', _, hp, hq, hd⟩
  · rw [hp, hq]
  · rw [hp, hq]
    exact congrArg some hf
  · rw [hp, hq]
    exact congrArg (fun d => some d.prototype) hd

end

/-- The prototype in force is the one of the statement in force. -/
theorem prototype?_of_declared_definition {p : Program} {name : String} {d : Definition}
    (h : p.declared name = some (.definition d)) :
    (p.prototype? name).map Prototype.bare = some d.prototype.bare := by
  obtain ⟨declaration, hdeclaration, hstatement⟩ := Option.map_eq_some_iff.mp h
  cases declaration with
  | foreign f => cases hstatement
  | definition d' rank =>
    obtain rfl := Statement.definition.inj hstatement
    rw [Program.prototype?, hdeclaration]
    rfl

/-! ### Canonical order -/

/-- A name is declared as an outside function after it was defined. -/
def Overridden (p : Program) (name : String) : Prop :=
  (∃ f, p.declaration? name = some (.foreign f)) ∧ ∃ d ∈ p.definitions, d.name = name

instance (p : Program) (name : String) :
    Decidable (∃ f, p.declaration? name = some (.foreign f)) :=
  match p.declaration? name with
  | some (.foreign f) => .isTrue ⟨f, rfl⟩
  | some (.definition _ _) => .isFalse fun ⟨_, hf⟩ => nomatch hf
  | none => .isFalse fun ⟨_, hf⟩ => nomatch hf

instance (p : Program) (name : String) : Decidable (p.Overridden name) :=
  inferInstanceAs (Decidable (_ ∧ _))

/-- In canonical order the declarations of a name from outside stand before its definitions. -/
theorem filter_declares_statements (p : Program) (name : String) :
    p.statements.filter (Statement.declares name) =
      (p.externs.filter fun q => q.name == name).map .foreign ++
        (p.definitions.filter fun d => d.name == name).map .definition := by
  have hnone : (p.expressions.map Statement.expression).filter (Statement.declares name) = [] :=
    List.filter_eq_nil_iff.mpr fun s hs => by
      obtain ⟨e, _, rfl⟩ := List.mem_map.mp hs
      simp [Statement.declares]
  rw [statements, List.filter_append, List.filter_append, hnone, List.append_nil, List.filter_map,
    List.filter_map]
  rfl

variable {ss : List Statement} {name : String}

/-- The parts of one kind that have a name are the parts among the declarations of the name. -/
theorem filter_filterMap_part {α : Type} {part? : Statement → Option α} {isNamed : α → Bool}
    (h : ∀ s a, part? s = some a → isNamed a = s.declares name) :
    (ss.filterMap part?).filter isNamed =
      (ss.filter (Statement.declares name)).filterMap part? := by
  rw [List.filter_filterMap, List.filterMap_filter]
  congr 1
  funext s
  cases hs : part? s with
  | none => simp
  | some a => rw [Option.filter_some, h s a hs]

/-- The definitions of a name are those among its declarations. -/
theorem filter_definitions_ofStatements :
    (ofStatements ss).close.definitions.filter (fun d => d.name == name) =
      (ss.filter (Statement.declares name)).filterMap Statement.definition? := by
  have hdefinitions : (ofStatements ss).close.definitions = ss.filterMap Statement.definition? :=
    definitions_ofStatements ss
  rw [hdefinitions]
  apply filter_filterMap_part
  intro s d hs
  cases s <;> cases hs
  rfl

/-- The outside functions of a name are those among its declarations. -/
theorem filter_externs_ofStatements :
    (ofStatements ss).close.externs.filter (fun q => q.name == name) =
      (ss.filter (Statement.declares name)).filterMap Statement.foreign? := by
  have hexterns : (ofStatements ss).close.externs = ss.filterMap Statement.foreign? :=
    externs_ofStatements ss
  rw [hexterns]
  apply filter_filterMap_part
  intro s q hs
  cases s <;> cases hs
  rfl

/-- In canonical order the last declaration of a name is its last definition, if it is defined. -/
theorem getLast?_canonical_definition {p : Program} {d : Definition}
    (h : (p.definitions.filter fun d => d.name == name).getLast? = some d) :
    (p.statements.filter (Statement.declares name)).getLast? = some (.definition d) := by
  rw [filter_declares_statements, List.getLast?_append, List.getLast?_map, h]
  rfl

/-- In canonical order a name that is not overridden has the same last declaration. -/
theorem getLast?_canonical (h : ¬ (ofStatements ss).close.Overridden name) :
    ((ofStatements ss).close.statements.filter (Statement.declares name)).getLast? =
      (ss.filter (Statement.declares name)).getLast? := by
  have hdeclaration := declaration?_ofStatements ss name
  cases hlast : (ss.filter (Statement.declares name)).getLast? with
  | none =>
    have hnil := List.getLast?_eq_none_iff.mp hlast
    rw [filter_declares_statements, filter_definitions_ofStatements, filter_externs_ofStatements,
      hnil]
    rfl
  | some s =>
    obtain ⟨before, hsplit⟩ := List.getLast?_eq_some_iff.mp hlast
    have hdeclares : s.declares name = true := by
      have hmem : s ∈ ss.filter (Statement.declares name) := by simp [hsplit]
      exact (List.mem_filter.mp hmem).2
    cases s with
    | expression e => contradiction
    | definition d =>
      apply getLast?_canonical_definition
      rw [filter_definitions_ofStatements, hsplit, List.filterMap_append, List.getLast?_append]
      rfl
    | foreign q =>
      -- There is no definition, or the name would be overridden.
      have hnone : (ofStatements ss).close.definitions.filter (fun d => d.name == name) = [] := by
        rw [List.filter_eq_nil_iff]
        intro d hd hname
        rw [hlast] at hdeclaration
        refine h ⟨?_, d, hd, beq_iff_eq.mp hname⟩
        cases hdeclared : (ofStatements ss).declaration? name with
        | none => simp [hdeclared] at hdeclaration
        | some declared =>
          cases declared with
          | foreign f => exact ⟨f, hdeclared⟩
          | definition d rank => simp [hdeclared, Declaration.statement] at hdeclaration
      rw [filter_declares_statements, filter_externs_ofStatements, hnone, hsplit,
        List.filterMap_append, List.map_nil, List.append_nil, List.getLast?_map, List.getLast?_append]
      rfl

section

variable {reread : List Statement}
  (h : reread.map Statement.bare = (ofStatements ss).close.statements.map Statement.bare)

include h

/-- A program of the same statements in canonical order declares what the last declaration in that
order says. -/
theorem declared_canonical : (ofStatements reread).close.declared name =
    ((ofStatements ss).close.statements.filter (Statement.declares name)).getLast?.map
      Statement.bare := by
  have hdeclares : Statement.declares name ∘ Statement.bare = Statement.declares name :=
    funext fun s => s.declares_bare name
  rw [declared_close_ofStatements, h, List.filter_map, hdeclares, List.getLast?_map]

/-- It declares the same under a name that is not overridden. -/
theorem declared_of_not_overridden (hname : ¬ (ofStatements ss).close.Overridden name) :
    (ofStatements reread).close.declared name = (ofStatements ss).close.declared name := by
  rw [declared_canonical h, getLast?_canonical hname, ← declaration?_ofStatements, Option.map_map]
  rfl

/-- Under a name that is overridden it has the last definition. -/
theorem declared_of_overridden (hname : (ofStatements ss).close.Overridden name) :
    ∃ d, ((ofStatements ss).close.definitions.filter fun d => d.name == name).getLast? = some d ∧
      (ofStatements reread).close.declared name = some (.definition d.bare) := by
  obtain ⟨_, d, hd, hdname⟩ := hname
  have hmem : d ∈ (ofStatements ss).close.definitions.filter fun d => d.name == name :=
    List.mem_filter.mpr ⟨hd, beq_iff_eq.mpr hdname⟩
  cases hlast : ((ofStatements ss).close.definitions.filter fun d => d.name == name).getLast? with
  | none =>
    rw [List.getLast?_eq_none_iff.mp hlast] at hmem
    contradiction
  | some last =>
    refine ⟨last, rfl, ?_⟩
    rw [declared_canonical h, getLast?_canonical_definition hlast]
    rfl

/-- It declares the same names. -/
theorem declared_eq_none_iff : (ofStatements reread).close.declared name = none ↔
    (ofStatements ss).close.declared name = none := by
  by_cases hname : (ofStatements ss).close.Overridden name
  · obtain ⟨d, _, hd⟩ := declared_of_overridden h hname
    obtain ⟨⟨f, hf⟩, _⟩ := hname
    rw [hd, declared, hf]
    simp
  · rw [declared_of_not_overridden h hname]

end

end Program

end Formulary
