import Formulary.Proofs.Descent.Completeness

/-!
# Canonical derivations

The derivation that canonical text spells: every binary operation, condition and loop is a group of
its own. It has the tree of the expression it was made from, and it opens fewer groups at once than
the tree has levels, so the parentheses that printing adds never exceed a nesting limit that the tree
keeps.
-/

namespace Formulary

namespace Parser

/-- Arguments that have no operators of their own. -/
def Arguments.ofOperands : Primary → List Primary → Arguments
  | p, [] => .last (.operand p)
  | p, q :: rest => .more (.operand p) (ofOperands q rest)

/-- A call with arguments that have no operators of their own. -/
def Primary.ofCall (name : String) : List Primary → Primary
  | [] => .emptyCall name
  | p :: rest => .call name (.ofOperands p rest)

end Parser

open Formulary.Parser

namespace Expr

mutual

/-- The canonical derivation of an expression. -/
def canonical : Expr → Primary
  | number value _ => .number value
  | var name _ => .name name
  | binary op left right _ =>
    .group (.operation (canonical left) op (.operand (canonical right)))
  | call name arguments _ => .ofCall name (canonicals arguments)
  | cond condition consequent alternative _ =>
    .group (.operand (.cond (.operand (canonical condition)) (.operand (canonical consequent))
      (.operand (canonical alternative))))
  | loop name start stop none body _ =>
    .group (.operand (.loop name (.operand (canonical start)) (.operand (canonical stop))
      (.operand (canonical body))))
  | loop name start stop (some step) body _ =>
    .group (.operand (.steppedLoop name (.operand (canonical start)) (.operand (canonical stop))
      (.operand (canonical step)) (.operand (canonical body))))

/-- The canonical derivations of a list of expressions. -/
def canonicals : List Expr → List Primary
  | [] => []
  | e :: rest => canonical e :: canonicals rest

end

/-- The canonical derivations of a list are those of its expressions. -/
theorem canonicals_eq_map (es : List Expr) : canonicals es = es.map canonical := by
  induction es with
  | nil => rfl
  | cons e rest ih => rw [canonicals, ih, List.map_cons]

end Expr

namespace Parser

/-- The tree of an operand alone. -/
@[simp] theorem Phrase.expr_operand (p : Primary) : (operand p).expr = p.expr := ofChain_nil _

/-- The tree of an operation with two operands. -/
theorem Phrase.expr_operation (left right : Primary) (op : Operator) :
    (operation left op (.operand right)).expr = .binary op left.expr right.expr none := by
  have hsplit : splitChain [(op, right.expr)] = some ⟨[], op, right.expr, []⟩ := rfl
  rw [Phrase.expr_eq, head, tail, Tail.links, List.map_cons, tail, head, List.map_nil,
    ofChain_of_splitChain _ hsplit, ofChain_nil, ofChain_nil]

/-- The trees of arguments are those of the operands. -/
theorem Arguments.exprs_ofOperands (p : Primary) (rest : List Primary) :
    (ofOperands p rest).exprs = (p :: rest).map Primary.expr := by
  induction rest generalizing p with
  | nil =>
    rw [ofOperands, exprs_last, Phrase.expr_operand]
    rfl
  | cons q rest ih =>
    rw [ofOperands, exprs_more, ih, Phrase.expr_operand]
    rfl

/-- Arguments are settled when the operands are. -/
theorem Arguments.settled_ofOperands {p : Primary} {rest : List Primary}
    (h : ∀ q ∈ p :: rest, q.Settled) : (ofOperands p rest).Settled := by
  induction rest generalizing p with
  | nil => exact h p List.mem_cons_self
  | cons q rest ih =>
    obtain ⟨hp, hrest⟩ := List.forall_mem_cons.mp h
    exact ⟨hp, ih hrest⟩

/-- Arguments open no more groups than the operands. -/
theorem Arguments.groups_ofOperands_le {p : Primary} {rest : List Primary} {n : Nat}
    (h : ∀ q ∈ p :: rest, q.groups ≤ n) : (ofOperands p rest).groups ≤ n := by
  induction rest generalizing p with
  | nil => exact h p List.mem_cons_self
  | cons q rest ih =>
    obtain ⟨hp, hrest⟩ := List.forall_mem_cons.mp h
    exact Nat.max_le.mpr ⟨hp, ih hrest⟩

/-- The tree of a call has the trees of its arguments. -/
theorem Primary.expr_ofCall (name : String) (ps : List Primary) :
    (ofCall name ps).expr = .call name (ps.map Primary.expr) none := by
  cases ps with
  | nil => rfl
  | cons p rest => rw [ofCall, Primary.expr, Arguments.exprs_ofOperands]

/-- A call is settled when its arguments are. -/
theorem Primary.settled_ofCall (name : String) {ps : List Primary}
    (h : ∀ p ∈ ps, p.Settled) : (ofCall name ps).Settled := by
  cases ps with
  | nil => trivial
  | cons p rest => exact Arguments.settled_ofOperands h

/-- A call opens no more groups than its arguments. -/
theorem Primary.groups_ofCall_le (name : String) {ps : List Primary} {n : Nat}
    (h : ∀ p ∈ ps, p.groups ≤ n) : (ofCall name ps).groups ≤ n := by
  cases ps with
  | nil => exact Nat.zero_le n
  | cons p rest => exact Arguments.groups_ofOperands_le h

end Parser

namespace Expr

/-- The canonical derivation of an expression has its tree. -/
theorem expr_canonical (e : Expr) : e.canonical.expr = e.bare := by
  induction e with
  | number value span => rfl
  | var name span => rfl
  | binary op left right span hl hr =>
    rw [canonical, Primary.expr_group, Phrase.expr_operation, hl, hr, bare]
  | call name arguments span ih =>
    have hmap : (canonicals arguments).map Primary.expr = bares arguments := by
      rw [canonicals_eq_map, bares_eq_map, List.map_map]
      exact List.map_congr_left ih
    rw [canonical, Primary.expr_ofCall, hmap, bare]
  | cond condition consequent alternative span hc ht hf =>
    simp only [canonical, Primary.expr_group, Phrase.expr_operand, Primary.expr_cond, hc, ht, hf, bare]
  | loop name start stop step body span h1 h2 h3 h4 =>
    cases step with
    | none =>
      simp only [canonical, Primary.expr_group, Phrase.expr_operand, Primary.expr_loop, h1, h2, h4,
        bare]
    | some s =>
      simp only [canonical, Primary.expr_group, Phrase.expr_operand, Primary.expr_steppedLoop, h1, h2,
        h3 s rfl, h4, bare]

/-- A canonical derivation is closed. -/
theorem isOpen_canonical (e : Expr) : e.canonical.isOpen = false := by
  cases e with
  | loop name start stop step body span => cases step <;> rfl
  | call name arguments span => cases arguments <;> rfl
  | _ => rfl

/-- A canonical derivation is settled. -/
theorem settled_canonical (e : Expr) : e.canonical.Settled := by
  induction e with
  | number value span => trivial
  | var name span => trivial
  | binary op left right span hl hr => exact ⟨left.isOpen_canonical, hl, hr⟩
  | call name arguments span ih =>
    rw [canonical, canonicals_eq_map]
    exact Primary.settled_ofCall name (List.forall_mem_map.mpr ih)
  | cond condition consequent alternative span hc ht hf => exact ⟨hc, ht, hf⟩
  | loop name start stop step body span h1 h2 h3 h4 =>
    cases step with
    | none => exact ⟨h1, h2, h4⟩
    | some s => exact ⟨h1, h2, h3 s rfl, h4⟩

/-- A canonical derivation opens fewer groups at once than the tree has levels. -/
theorem groups_canonical_lt (e : Expr) : e.canonical.groups < e.height := by
  induction e with
  | number value span => exact Nat.zero_lt_one
  | var name span => exact Nat.zero_lt_one
  | binary op left right span hl hr =>
    simp only [canonical, Primary.groups, Phrase.groups, height]
    omega
  | call name arguments span ih =>
    have hle : ∀ p ∈ canonicals arguments, p.groups ≤ heights arguments := by
      rw [canonicals_eq_map]
      refine List.forall_mem_map.mpr fun a ha => ?_
      exact Nat.le_of_lt (Nat.lt_of_lt_of_le (ih a ha) (height_le_heights ha))
    have hcall := Primary.groups_ofCall_le name hle
    rw [canonical, height]
    omega
  | cond condition consequent alternative span hc ht hf =>
    simp only [canonical, Primary.groups, Phrase.groups, height]
    omega
  | loop name start stop step body span h1 h2 h3 h4 =>
    cases step with
    | none =>
      simp only [canonical, Primary.groups, Phrase.groups, height]
      omega
    | some s =>
      have h3 := h3 s rfl
      simp only [canonical, Primary.groups, Phrase.groups, height]
      omega

end Expr

/-- The parameters of a prototype, without commas behind them. -/
def Prototype.canonical (p : Prototype) : Signature := ⟨p.name, p.params.map fun name => (name, false)⟩

/-- The names of the parameters are those of the prototype. -/
theorem Prototype.names_canonical (p : Prototype) : p.canonical.names = p.params := by
  rw [canonical, Signature.names, List.map_map]
  exact List.map_id _

namespace Statement

/-- The canonical derivation of a statement. -/
def canonical : Statement → Clause
  | foreign p => .foreign p.canonical
  | definition d => .definition d.prototype.canonical (.operand d.body.canonical)
  | expression e => .formula (.operand e.canonical)

/-- The parameters of a statement. -/
def params : Statement → List String
  | foreign p => p.params
  | definition d => d.prototype.params
  | expression _ => []

/-- The canonical derivation of a statement says the statement. -/
theorem statement_canonical (s : Statement) : s.canonical.statement = some s.bare := by
  cases s with
  | foreign p =>
    rw [canonical, Clause.statement, p.names_canonical]
    rfl
  | definition d =>
    rw [canonical, Clause.statement, d.prototype.names_canonical, Phrase.expr_operand,
      d.body.expr_canonical]
    rfl
  | expression e =>
    rw [canonical, Clause.statement, Phrase.expr_operand, e.expr_canonical]
    rfl

/-- The canonical derivation keeps every nesting limit that the statement keeps. -/
theorem fits_canonical {s : Statement} {limit : Int} (hdistinct : s.params.Nodup)
    (hheight : s.height ≤ limit.toNat) : s.canonical.Fits limit := by
  have hbare : ∀ t ∈ s.canonical.statement, t.height ≤ limit.toNat := by
    rw [s.statement_canonical]
    intro t ht
    rwa [← Option.some.inj ht, height_bare]
  cases s with
  | foreign p =>
    have hnames : p.canonical.names.Nodup := by rwa [p.names_canonical]
    exact ⟨trivial, hnames, hbare, Nat.zero_le _⟩
  | definition d =>
    have hnames : d.prototype.canonical.names.Nodup := by rwa [d.prototype.names_canonical]
    have hgroups := Nat.lt_of_lt_of_le d.body.groups_canonical_lt hheight
    exact ⟨d.body.settled_canonical, hnames, hbare, Nat.le_of_lt hgroups⟩
  | expression e =>
    have hgroups := Nat.lt_of_lt_of_le e.groups_canonical_lt hheight
    exact ⟨e.settled_canonical, trivial, hbare, Nat.le_of_lt hgroups⟩

end Statement

end Formulary
