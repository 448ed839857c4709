import Formulary.Proofs.Grammar.Nodes
import Formulary.Proofs.Source.Concatenation

/-!
# What the parser hands over

A program that was read is well formed in all its parts. Every node of every tree has names that the
lexer reads as names and numbers that a literal can have, and keeps the nesting limit: the tokens of a
node are among the tokens of the tree, and those are tokens of the text. No prototype repeats a
parameter. The table of signatures follows the statements in the order of the source: its names stand
in the order in which they were first declared, each with the prototype of its last declaration.
-/

namespace Formulary

open Formulary.Parser

namespace Expr

/-- The names and numbers of a node, its parts aside, are such as the lexer reads. -/
def ProperNode : Expr → Prop
  | number value _ => Number.IsLiteral value
  | var name _ => IsName name
  | binary .. => True
  | call name _ _ => IsName name
  | cond .. => True
  | loop name .. => IsName name

/-- The tokens of a part are among those of the tree. -/
theorem flat_subset_of_mem_children {e c : Expr} (h : c ∈ e.children) : c.flat ⊆ e.flat := by
  intro w hw
  cases e with
  | number value span => contradiction
  | var name span => contradiction
  | binary op left right span =>
    simp only [children, List.mem_cons, List.not_mem_nil, or_false] at h
    rcases h with rfl | rfl <;> simp [flat, hw]
  | call name arguments span =>
    have hflats : w ∈ flats arguments := flat_subset_flats h hw
    simp [flat, hflats]
  | cond condition consequent alternative span =>
    simp only [children, List.mem_cons, List.not_mem_nil, or_false] at h
    rcases h with rfl | rfl | rfl <;> simp [flat, hw]
  | loop name start stop step body span =>
    simp only [children, List.mem_cons, List.mem_append, Option.mem_toList, List.not_mem_nil,
      or_false] at h
    rcases h with rfl | rfl | rfl | rfl
    · cases step <;> simp [flat, hw]
    · cases step <;> simp [flat, hw]
    · simp [flat, hw]
    · cases step <;> simp [flat, hw]

/-- The tokens of a node are among those of the tree. -/
theorem flat_subset_of_mem_preorder {e node : Expr} (h : node ∈ e.preorder) :
    node.flat ⊆ e.flat := by
  induction e using parts_induct with
  | h e ih =>
    rcases mem_preorder.mp h with rfl | ⟨c, hc, hnode⟩
    · exact List.Subset.refl _
    · exact fun w hw => flat_subset_of_mem_children hc (ih c hc hnode hw)

/-- A node is no higher than the tree. -/
theorem height_le_of_mem_preorder {e node : Expr} (h : node ∈ e.preorder) :
    node.height ≤ e.height := by
  induction e using parts_induct with
  | h e ih =>
    rcases mem_preorder.mp h with rfl | ⟨c, hc, hnode⟩
    · exact Nat.le_refl _
    · have hpart := height_le_heights hc
      rw [e.height_eq]
      exact Nat.le_trans (ih c hc hnode) (Nat.le_trans hpart (Nat.le_add_left _ _))

/-- A node is proper if its tokens are. -/
theorem properNode_of_flat {e : Expr} (h : ∀ w ∈ e.flat, w.IsProper) : e.ProperNode := by
  cases e with
  | number value span => exact h (.number value) List.mem_cons_self
  | var name span => exact h (.identifier name) List.mem_cons_self
  | binary => trivial
  | call name arguments span => exact h (.identifier name) List.mem_cons_self
  | cond => trivial
  | loop name start stop step body span =>
    have hname : .identifier name ∈ (loop name start stop step body span).flat := by
      cases step <;> simp [flat]
    exact h (.identifier name) hname

end Expr

/-- Names that the lexer reads as names, and no parameter twice. -/
structure Prototype.Proper (q : Prototype) : Prop where
  name : IsName q.name
  params : ∀ param ∈ q.params, IsName param
  distinct : q.params.Nodup

/-- A prototype is proper if its tokens are and its parameters are distinct. -/
theorem Prototype.proper_of_flat {q : Prototype} (h : ∀ w ∈ q.flat, w.IsProper)
    (hdistinct : q.params.Nodup) : q.Proper where
  name := h (.identifier q.name) List.mem_cons_self
  params param hparam := h (.identifier param) (by simp [flat, hparam])
  distinct := hdistinct

namespace Program

/-- The trees of a program, bodies first. -/
def trees (p : Program) : List Expr := p.definitions.map Definition.body ++ p.expressions

/-- A program of statements is well formed within a nesting limit. -/
structure WellFormed (p : Program) (limit : Int) (ss : List Statement) : Prop where
  /-- The names and numbers in the trees are proper. -/
  nodes : ∀ e ∈ p.trees, ∀ node ∈ e.preorder, node.ProperNode
  /-- The trees and all their nodes keep the limit. -/
  heights : ∀ e ∈ p.trees, ∀ node ∈ e.preorder, (node.height : Int) ≤ limit
  /-- The prototypes are proper. -/
  prototypes : ∀ q ∈ p.prototypes, q.Proper
  externs : p.externs = ss.filterMap Statement.foreign?
  definitions : p.definitions = ss.filterMap Statement.definition?
  expressions : p.expressions = ss.filterMap Statement.expression?
  /-- The names with a signature are the declared ones, in the order of their first declarations. -/
  names : p.declarations.names =
    (ss.filterMap fun s => s.prototype?.map Prototype.name).eraseDups
  /-- The signature of a name is that of its last declaration. -/
  prototype : ∀ name, p.prototype? name =
    (ss.filter (Statement.declares name)).getLast?.bind Statement.prototype?
  sealed : p.isSealed = true

/-- Each name stands once, where it was first declared. -/
theorem names_ofStatements (ss : List Statement) : (ofStatements ss).declarations.names =
    (ss.filterMap fun s => s.prototype?.map Prototype.name).eraseDups := by
  induction ss using List.reverseRecOn with
  | nil => rfl
  | append_singleton ss s ih =>
    rw [ofStatements_append, List.foldl_cons, List.foldl_nil, names_extend, ih,
      List.filterMap_append, List.eraseDups_append, List.filterMap_cons, List.filterMap_nil]
    generalize (ss.filterMap fun s => s.prototype?.map Prototype.name) = before
    cases s.prototype?.map Prototype.name with
    | none => simp
    | some name =>
      by_cases hbefore : name ∈ before
      · simp [hbefore, List.removeAll]
      · simp [hbefore, List.removeAll, List.eraseDups_cons]

/-- Statements whose tokens are proper and which keep the nesting limit make a well-formed
program. -/
theorem Printable.wellFormed {limit : Int} {ss : List Statement}
    (h : (ofStatements ss).close.Printable limit) :
    (ofStatements ss).close.WellFormed limit ss := by
  have hforeign (q : Prototype) (hq : q ∈ (ofStatements ss).close.externs) :
      .foreign q ∈ (ofStatements ss).close.statements := by simp [statements, hq]
  have hdefinition (d : Definition) (hd : d ∈ (ofStatements ss).close.definitions) :
      .definition d ∈ (ofStatements ss).close.statements := by simp [statements, hd]
  have hexpression (e : Expr) (he : e ∈ (ofStatements ss).close.expressions) :
      .expression e ∈ (ofStatements ss).close.statements := by simp [statements, he]
  constructor
  · intro e he node hnode
    apply Expr.properNode_of_flat
    intro w hw
    have hmem := Expr.flat_subset_of_mem_preorder hnode hw
    rcases List.mem_append.mp he with he | he
    · obtain ⟨d, hd, rfl⟩ := List.mem_map.mp he
      exact h.proper _ (hdefinition d hd) w (by simp [Statement.flat, Definition.flat, hmem])
    · exact h.proper _ (hexpression e he) w (by simp [Statement.flat, Expr.flatStatement, hmem])
  · intro e he node hnode
    have hheight := Expr.height_le_of_mem_preorder hnode
    rcases List.mem_append.mp he with he | he
    · obtain ⟨d, hd, rfl⟩ := List.mem_map.mp he
      exact Int.le_trans (Int.ofNat_le.mpr hheight) (h.bodies d hd)
    · exact Int.le_trans (Int.ofNat_le.mpr hheight) (h.expressions e he)
  · intro q hq
    rcases List.mem_append.mp hq with hq | hq
    · apply Prototype.proper_of_flat
      · intro w hw
        exact h.proper _ (hforeign q hq) w (by simp [Statement.flat, Prototype.flatExtern, hw])
      · exact h.distinct _ (hforeign q hq)
    · obtain ⟨d, hd, rfl⟩ := List.mem_map.mp hq
      apply Prototype.proper_of_flat
      · intro w hw
        exact h.proper _ (hdefinition d hd) w (by simp [Statement.flat, Definition.flat, hw])
      · exact h.distinct _ (hdefinition d hd)
  · exact externs_ofStatements ss
  · exact definitions_ofStatements ss
  · exact expressions_ofStatements ss
  · exact names_ofStatements ss
  · exact prototype?_ofStatements ss
  · rfl

/-- A program that was read from a text is well formed. The statements are those of the text, in its
order: clauses that spell the tokens of the text say them. -/
theorem ofSource_wellFormed {source filename : String} {limit : Int} {p : Program}
    (h : ofSource source filename limit = .ok p) :
    ∃ ts ks ss, Lexer.tokenize source filename = .ok ts ∧
      spellAll true ks = ts.map Token.content ∧ YieldsAll ks ss ∧ p.WellFormed limit ss := by
  have hprintable := printable_of_ofSource h
  obtain ⟨ts, htokens, hparse⟩ := ofSource_eq_ok_iff.mp h
  obtain ⟨ks, ss, after, hreads, hend, rfl⟩ := parse_reads hparse
  exact ⟨ts, ks, ss, htokens, hreads.spells.all hend, hreads.yields, hprintable.wellFormed⟩

/-- A name that is declared twice has its last prototype, in its first place. -/
theorem wellFormed_redeclared :
    ∃ p, ofSource "extern g(x); def f(a b) for i = 0, i < 9 in g(a + i * 2); extern g(x y);"
      "g.k" 5 = .ok p ∧ p.declarations.names = ["g", "f"] ∧
      (p.prototype? "g").map Prototype.params = some ["x", "y"] ∧
      ∃ ss, p.WellFormed 5 ss := by
  have hread : ∃ p ∈ (ofSource
      "extern g(x); def f(a b) for i = 0, i < 9 in g(a + i * 2); extern g(x y);"
      "g.k" 5).toOption, p.declarations.names = ["g", "f"] ∧
      (p.prototype? "g").map Prototype.params = some ["x", "y"] := by
    decide +kernel
  obtain ⟨p, hread, hnames, hparams⟩ := exists_of_toOption hread
  obtain ⟨_, _, ss, _, _, _, hwellFormed⟩ := ofSource_wellFormed hread
  exact ⟨p, hread, hnames, hparams, ss, hwellFormed⟩

end Program

end Formulary
