import Formulary.Expr.Basic

/-!
# Chains of operators

The tree of a chain of operators, said without a parser: the chain is split at the last operator
of the lowest precedence in it, and so are its two parts. `ofChain_operation` is the step by which
a reader that goes from left to right arrives at that tree: an operator may take its right operand
as soon as the operators that bind more tightly have been given to that operand.
-/

namespace Formulary

/-- Operators, each with its right operand. -/
abbrev Chain := List (Operator × Expr)

/-- A chain split at one of its operators: the part before, the operator with its right operand,
and the part after that. -/
structure ChainSplit where
  before : Chain
  op : Operator
  operand : Expr
  after : Chain

/-- Split a chain at the last operator of the lowest precedence in it. -/
def splitChain : Chain → Option ChainSplit
  | [] => none
  | (op, e) :: rest =>
    match splitChain rest with
    | none => some ⟨[], op, e, rest⟩
    | some s =>
      if op.precedence < s.op.precedence then some ⟨[], op, e, rest⟩
      else some { s with before := (op, e) :: s.before }

/-- A chain begins with the operators that bind more tightly than some level, up to the first that
does not. -/
theorem exists_tight {β : Type} (level : Nat) (links : List (Operator × β)) :
    ∃ tight loose, links = tight ++ loose ∧ (∀ link ∈ tight, level < link.1.precedence) ∧
      ∀ link ∈ loose.head?, link.1.precedence ≤ level := by
  induction links with
  | nil => exact ⟨[], [], rfl, by simp, by simp⟩
  | cons link rest ih =>
    by_cases hlink : level < link.1.precedence
    · obtain ⟨tight, loose, rfl, htight, hloose⟩ := ih
      exact ⟨link :: tight, loose, rfl, List.forall_mem_cons.mpr ⟨hlink, htight⟩, hloose⟩
    · exact ⟨[], link :: rest, rfl, by simp, by simpa using hlink⟩

/-- Splitting loses nothing. -/
theorem eq_of_splitChain {chain : Chain} {s : ChainSplit} (h : splitChain chain = some s) :
    chain = s.before ++ (s.op, s.operand) :: s.after := by
  induction chain generalizing s with
  | nil => simp [splitChain] at h
  | cons link rest ih =>
    obtain ⟨op, e⟩ := link
    rw [splitChain] at h
    cases hr : splitChain rest with
    | none =>
      simp only [hr, Option.some.injEq] at h
      rw [← h]
      rfl
    | some s' =>
      simp only [hr] at h
      split at h
      · rw [← Option.some.inj h]
        rfl
      · rw [← Option.some.inj h, ih hr]
        rfl

/-- Only the empty chain cannot be split. -/
theorem splitChain_eq_none_iff (chain : Chain) : splitChain chain = none ↔ chain = [] := by
  cases chain with
  | nil => simp [splitChain]
  | cons link rest =>
    rw [splitChain]
    cases splitChain rest with
    | none => simp
    | some s =>
      simp only
      split <;> simp

/-- The split is made at an operator that binds no more tightly than those before it, and less
tightly than those after it. -/
theorem lowest_of_splitChain {chain : Chain} {s : ChainSplit} (h : splitChain chain = some s) :
    (∀ link ∈ s.before, s.op.precedence ≤ link.1.precedence) ∧
      ∀ link ∈ s.after, s.op.precedence < link.1.precedence := by
  induction chain generalizing s with
  | nil => simp [splitChain] at h
  | cons link rest ih =>
    obtain ⟨op, e⟩ := link
    rw [splitChain] at h
    cases hr : splitChain rest with
    | none =>
      have hrest := (splitChain_eq_none_iff rest).mp hr
      simp only [hr, Option.some.injEq] at h
      rw [← h, hrest]
      simp
    | some s' =>
      obtain ⟨hbefore, hafter⟩ := ih hr
      simp only [hr] at h
      split at h
      · next hlt =>
        rw [← Option.some.inj h]
        refine ⟨by simp, fun link hlink => ?_⟩
        rw [eq_of_splitChain hr, List.mem_append, List.mem_cons] at hlink
        rcases hlink with hlink | rfl | hlink
        · exact Nat.lt_of_lt_of_le hlt (hbefore link hlink)
        · exact hlt
        · exact Nat.lt_trans hlt (hafter link hlink)
      · next hle =>
        rw [← Option.some.inj h]
        refine ⟨fun link hlink => ?_, hafter⟩
        rcases List.mem_cons.mp hlink with rfl | hlink
        · exact Nat.le_of_not_lt hle
        · exact hbefore link hlink

/-- That property determines the split. -/
theorem splitChain_append {before after : Chain} {op : Operator} {e : Expr}
    (hbefore : ∀ link ∈ before, op.precedence ≤ link.1.precedence)
    (hafter : ∀ link ∈ after, op.precedence < link.1.precedence) :
    splitChain (before ++ (op, e) :: after) = some ⟨before, op, e, after⟩ := by
  induction before with
  | nil =>
    rw [List.nil_append, splitChain]
    cases hr : splitChain after with
    | none => rfl
    | some s =>
      have hmem : (s.op, s.operand) ∈ after := by
        rw [eq_of_splitChain hr]
        simp
      simp only [if_pos (hafter _ hmem)]
  | cons link rest ih =>
    have hlink := hbefore link List.mem_cons_self
    rw [List.cons_append, splitChain, ih fun l hl => hbefore l (List.mem_cons_of_mem _ hl)]
    simp only [if_neg (Nat.not_lt.mpr hlink)]

/-- The tree of a chain: it is split at the last operator of the lowest precedence, and so are
its two parts. The span of a node is joined from the spans of its parts. -/
def splitTree (join : Option Span → Option Span → Option Span) (first : Expr) (chain : Chain) :
    Expr :=
  match _h : splitChain chain with
  | none => first
  | some s =>
    let left := splitTree join first s.before
    let right := splitTree join s.operand s.after
    .binary s.op left right (join left.span right.span)
termination_by chain.length
decreasing_by
  all_goals
    rw [eq_of_splitChain _h, List.length_append, List.length_cons]
    omega

section

variable (join : Option Span → Option Span → Option Span) (first : Expr)

/-- Without operators the tree is the first operand. -/
@[simp] theorem splitTree_nil : splitTree join first [] = first := by
  rw [splitTree]
  rfl

/-- The tree of a chain that is split. -/
theorem splitTree_of_splitChain {chain : Chain} {s : ChainSplit} (h : splitChain chain = some s) :
    splitTree join first chain =
      .binary s.op (splitTree join first s.before) (splitTree join s.operand s.after)
        (join (splitTree join first s.before).span (splitTree join s.operand s.after).span) := by
  rw [splitTree]
  split
  · next hn => simp [h] at hn
  · next s' hs =>
    obtain rfl := Option.some.inj (h.symm.trans hs)
    rfl

end

/-- The tree of a chain without spans: it is split at the last operator of the lowest precedence,
and so are its two parts. -/
def ofChain (first : Expr) (chain : Chain) : Expr :=
  match _h : splitChain chain with
  | none => first
  | some s => .binary s.op (ofChain first s.before) (ofChain s.operand s.after) none
termination_by chain.length
decreasing_by
  all_goals
    rw [eq_of_splitChain _h, List.length_append, List.length_cons]
    omega

/-- Without operators the tree is the first operand. -/
@[simp] theorem ofChain_nil (first : Expr) : ofChain first [] = first := by
  rw [ofChain]
  rfl

/-- The tree of a chain that is split. -/
theorem ofChain_of_splitChain {chain : Chain} {s : ChainSplit} (first : Expr)
    (h : splitChain chain = some s) :
    ofChain first chain =
      .binary s.op (ofChain first s.before) (ofChain s.operand s.after) none := by
  rw [ofChain]
  split
  · next hn => simp [h] at hn
  · next s' hs =>
    obtain rfl := Option.some.inj (h.symm.trans hs)
    rfl

/-- Induction on a chain by its split. -/
theorem Chain.splitInduction {motive : Chain → Prop} (nil : motive [])
    (split : ∀ chain s, splitChain chain = some s → motive s.before → motive s.after →
      motive chain) (chain : Chain) : motive chain := by
  cases h : splitChain chain with
  | none =>
    rw [(splitChain_eq_none_iff chain).mp h]
    exact nil
  | some s =>
    have hlength : chain.length = s.before.length + (s.after.length + 1) := by
      rw [eq_of_splitChain h, List.length_append, List.length_cons]
    exact split chain s h (Chain.splitInduction nil split s.before)
      (Chain.splitInduction nil split s.after)
termination_by chain.length

/-- The tree without spans is the one whose nodes join none. -/
theorem ofChain_eq_splitTree (first : Expr) (chain : Chain) :
    ofChain first chain = splitTree (fun _ _ => none) first chain := by
  induction chain using Chain.splitInduction generalizing first with
  | nil => rw [ofChain_nil, splitTree_nil]
  | split chain s hs ihbefore ihafter =>
    rw [ofChain_of_splitChain first hs, splitTree_of_splitChain _ first hs, ihbefore, ihafter]

/-- An operator takes its right operand with all operators that bind more tightly, once the next
one binds no more tightly than it does. -/
theorem splitTree_operation (join : Option Span → Option Span → Option Span) (first : Expr)
    (op : Operator) (e : Expr) {inner : Chain}
    (hinner : ∀ link ∈ inner, op.precedence < link.1.precedence) (outer : Chain)
    (houter : ∀ link ∈ outer.head?, link.1.precedence ≤ op.precedence) :
    splitTree join first ((op, e) :: (inner ++ outer)) =
      splitTree join (.binary op first (splitTree join e inner)
        (join first.span (splitTree join e inner).span)) outer := by
  induction outer using Chain.splitInduction with
  | nil =>
    have hs : splitChain ((op, e) :: inner) = some ⟨[], op, e, inner⟩ :=
      splitChain_append (List.forall_mem_nil _) hinner
    rw [List.append_nil, splitTree_nil, splitTree_of_splitChain join first hs, splitTree_nil]
  | split outer s hs ihbefore _ =>
    obtain ⟨hbefore, hafter⟩ := lowest_of_splitChain hs
    have houtereq := eq_of_splitChain hs
    have hle : s.op.precedence ≤ op.precedence := by
      cases hb : s.before with
      | nil => exact houter (s.op, s.operand) (by simp [houtereq, hb])
      | cons link rest =>
        have hlink := hbefore link (by simp [hb])
        exact Nat.le_trans hlink (houter link (by simp [houtereq, hb]))
    have hsplit : splitChain ((op, e) :: (inner ++ outer)) =
        some ⟨(op, e) :: (inner ++ s.before), s.op, s.operand, s.after⟩ := by
      rw [houtereq, ← List.append_assoc, ← List.cons_append]
      refine splitChain_append (fun link hlink => ?_) hafter
      rcases List.mem_cons.mp hlink with rfl | hlink
      · exact hle
      · rcases List.mem_append.mp hlink with hlink | hlink
        · exact Nat.le_trans hle (Nat.le_of_lt (hinner link hlink))
        · exact hbefore link hlink
    have hhead : ∀ link ∈ s.before.head?, link.1.precedence ≤ op.precedence := by
      intro link hlink
      apply houter link
      cases hb : s.before with
      | nil => simp [hb] at hlink
      | cons x rest => simpa [houtereq, hb] using hlink
    rw [splitTree_of_splitChain join first hsplit, ihbefore hhead, splitTree_of_splitChain join _ hs]

/-- So it does in the tree without spans. -/
theorem ofChain_operation (first : Expr) (op : Operator) (e : Expr) {inner : Chain}
    (hinner : ∀ link ∈ inner, op.precedence < link.1.precedence) (outer : Chain)
    (houter : ∀ link ∈ outer.head?, link.1.precedence ≤ op.precedence) :
    ofChain first ((op, e) :: (inner ++ outer)) =
      ofChain (.binary op first (ofChain e inner) none) outer := by
  simp only [ofChain_eq_splitTree]
  exact splitTree_operation _ first op e hinner outer houter

/-- The first operand is no higher than the tree. -/
theorem height_first_le_splitTree (join : Option Span → Option Span → Option Span) (first : Expr)
    (chain : Chain) : first.height ≤ (splitTree join first chain).height := by
  induction chain using Chain.splitInduction with
  | nil => simp
  | split chain s hs ihbefore _ =>
    rw [splitTree_of_splitChain join first hs, Expr.height]
    omega

/-- Nor is it higher than the tree without spans. -/
theorem height_first_le_ofChain (first : Expr) (chain : Chain) :
    first.height ≤ (ofChain first chain).height := by
  rw [ofChain_eq_splitTree]
  exact height_first_le_splitTree _ first chain

end Formulary
