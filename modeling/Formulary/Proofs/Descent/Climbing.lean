import Formulary.Parser.Basic
import Formulary.Proofs.Descent.Correspondence
import Formulary.Proofs.Descent.Reading
import Formulary.Proofs.Grammar.Chain

/-!
# Climbing and splitting

Chains of operators are read from left to right, with a bound on precedences that rises and falls.
The tree that comes out is the one of `splitTree`, which knows of no reader: the chain is split at
the last operator of the lowest precedence, and so are its two parts. Operands are whatever the
reader of primary expressions takes in their places, so nothing is said of their grammar, and the
spans of the tree are those of the reader.

A climb that is to take a chain `chain` with the bound `least` takes its first operator, gives the
right operand those after it that bind more tightly, and goes on with the rest (`Climbs`). Read
backwards, what a climb has taken is such a chain (`Climbed`).
-/

namespace Formulary.Parser

open Descent

/-! ### Readers at a level of nesting -/

/-- Read a primary expression at the cursor, with the given nesting. -/
def primaryAt (n : Nesting) (c : Cursor) : Except SyntaxError Measured × Cursor :=
  finish (primaryWithin (4 * c.rest.length + 1) n) c
    (((answers_within _ _).2.2.1 n (Nat.le_refl _)).ne_cutShort (Nat.le_refl _))

/-- Read an expression at the cursor, with the given nesting. With none it is `expression`. -/
def expressionAt (n : Nesting) (c : Cursor) : Except SyntaxError Measured × Cursor :=
  finish (expressionWithin (4 * c.rest.length + 3) n) c
    ((answers_expressionWithin (Nat.le_refl _) n).ne_cutShort (Nat.le_refl _))

/-- Tokens correspond to themselves, and spans are compared as they are. -/
def Correspondence.same : Correspondence where
  token := Eq
  left := id
  right := id
  before := []
  content := congrArg Token.content
  ending h := by rw [h]
  between h h' := by rw [h, h']
  join h h' := congrArg₂ Span.join? h h'

namespace Correspondence

variable {c c' : Cursor}

/-- A cursor stands beside itself. -/
theorem beside_same (c : Cursor) : same.Beside c c :=
  ⟨⟨c.consumed, (List.append_nil _).symm, List.forall₂_eq_eq_eq ▸ rfl⟩,
    List.forall₂_eq_eq_eq ▸ rfl⟩

/-- It stands beside no other. -/
theorem Beside.eq (h : same.Beside c c') : c = c' := by
  obtain ⟨⟨passed, hpassed, hconsumed⟩, hrest⟩ := h
  rw [same, List.append_nil] at hpassed
  have hconsumed : c.consumed = passed := List.forall₂_eq_eq_eq ▸ hconsumed
  have hrest : c.rest = c'.rest := List.forall₂_eq_eq_eq ▸ hrest
  cases c
  cases c'
  simp_all

/-- Trees whose spans are the same as they are, are the same. -/
theorem Same.eq {m m' : Measured} (h : same.Same m m') : m = m' := by
  have hheight := h.height_eq
  have hexpr : m.expr = m'.expr := (m.expr.through_id).symm.trans (h.trans m'.expr.through_id)
  cases m
  cases m'
  simp_all

end Correspondence

section

variable {n : Nesting} {c after : Cursor} {m : Measured}

/-- A primary expression begins with a token. -/
theorem primaryWithin_takes (fuel : Nat) (n : Nesting) (c : Cursor) :
    (primaryWithin fuel n c).Ends (fun _ _ => c.rest ≠ []) fun _ _ => True := by
  cases fuel with
  | zero => trivial
  | succ fuel =>
    simp only [primaryWithin, ends_bind]
    refine ends_take (fun t rest opening hrest _ => ?_) trivial
    have hne : c.rest ≠ [] := by simp [hrest]
    exact Outcome.Ends.of_forall (fun _ _ => hne) fun _ _ => trivial

/-- A primary expression that is read with some fuel is read with any that does not cut it short. -/
theorem primaryWithin_again {fuel : Nat} (h : primaryWithin fuel n c = .success m after)
    (fuel' : Nat) :
    (primaryWithin fuel' n c).Ends (fun m' after' => m' = m ∧ after' = after) fun _ _ => False := by
  have htakes := primaryWithin_takes fuel n c
  rw [h] at htakes
  have hmatches := (Correspondence.parallelWithin .same fuel).primary fuel' n c c
    (Correspondence.beside_same c) (.inr htakes)
  rw [h] at hmatches
  exact Outcome.Ends.mono hmatches
    (fun m' after' ⟨hsame, hbeside, _⟩ => ⟨hsame.eq.symm, hbeside.eq.symm⟩) fun _ _ h => h

/-- With any fuel the primary expression at the cursor is read, or none. -/
theorem primaryWithin_ends (fuel : Nat) (n : Nesting) (c : Cursor) :
    (primaryWithin fuel n c).Ends (fun m after => primaryAt n c = (.ok m, after))
      fun _ _ => True := by
  cases h : primaryWithin fuel n c with
  | success m after =>
    have hagain := primaryWithin_again h (4 * c.rest.length + 1)
    have hanswers := ((answers_within (4 * c.rest.length + 1) c.rest.length).2.2.1 n
      (Nat.le_refl _)).ne_cutShort (Nat.le_refl _)
    change primaryAt n c = _
    rw [primaryAt, finish_eq_ok]
    cases h' : primaryWithin (4 * c.rest.length + 1) n c with
    | success m' after' =>
      rw [h'] at hagain
      rw [hagain.1, hagain.2]
    | failure e after' =>
      rw [h'] at hagain
      exact hagain.elim
    | cutShort => exact absurd h' hanswers
  | failure e after => trivial
  | cutShort => trivial

/-- A primary expression that stands at the cursor is read with any fuel. -/
theorem primaryWithin_finds (h : primaryAt n c = (.ok m, after)) (fuel : Nat) :
    (primaryWithin fuel n c).Ends (fun m' after' => m' = m ∧ after' = after) fun _ _ => False :=
  primaryWithin_again ((finish_eq_ok _).mp h) fuel

end

/-! ### Chains at a level of nesting -/

/-- From one cursor to another stand operators, each with its right operand, which the reader of
primary expressions takes at the given nesting. -/
inductive Linked (n : Nesting) : Cursor → Chain → Cursor → Prop where
  | nil (c : Cursor) : Linked n c [] c
  | cons {c mid after : Cursor} {t : Token} {rest : List Token} {op : Operator} {m : Measured}
      {e : Expr} {chain : Chain} (ahead : c.rest = t :: rest) (operator : t.operator? = some op)
      (operand : primaryAt n (c.pass t rest) = (.ok m, mid)) (expr : m.expr = e)
      (links : Linked n mid chain after) : Linked n c ((op, e) :: chain) after

/-- From one cursor to another stands a chain of operators, with its first operand, and no operator
comes after it. -/
structure Chained (n : Nesting) (c : Cursor) (first : Expr) (chain : Chain) (after : Cursor) :
    Prop where
  links : ∃ m mid, primaryAt n c = (.ok m, mid) ∧ m.expr = first ∧ Linked n mid chain after
  last : after.current.operator? = none

namespace Linked

variable {n : Nesting} {c mid after : Cursor} {xs ys : Chain}

/-- Chains behind each other are one chain. -/
theorem append (h : Linked n c xs mid) (h' : Linked n mid ys after) :
    Linked n c (xs ++ ys) after := by
  induction h with
  | nil => exact h'
  | cons ahead operator operand expr _ ih => exact .cons ahead operator operand expr (ih h')

/-- A chain may be divided anywhere. -/
theorem divide (h : Linked n c (xs ++ ys) after) :
    ∃ mid, Linked n c xs mid ∧ Linked n mid ys after := by
  induction xs generalizing c with
  | nil => exact ⟨c, .nil c, h⟩
  | cons link rest ih =>
    cases h with
    | cons ahead operator operand expr links =>
      obtain ⟨mid, hrest, hys⟩ := ih links
      exact ⟨mid, .cons ahead operator operand expr hrest, hys⟩

/-- The first operator of a chain stands at its cursor. -/
theorem operator?_current (h : Linked n c xs after) :
    ∀ link ∈ xs.head?, c.current.operator? = some link.1 := by
  cases h with
  | nil => simp
  | cons ahead operator =>
    intro link hlink
    obtain rfl := Option.some.inj hlink
    rw [Cursor.current, ahead]
    exact operator

end Linked

/-- A token is taken as an operator, with some bound on precedences, if it is one that keeps to the
bound. -/
theorem binding?_eq_none_iff (least : Nat) (t : Token) :
    binding? least t = none ↔ ∀ op, t.operator? = some op → op.precedence < least := by
  unfold binding?
  cases t.operator? with
  | none => simp
  | some op => simp [Option.filter_some]

/-- With no bound, every operator is taken. -/
theorem binding?_zero_eq_none_iff (t : Token) : binding? 0 t = none ↔ t.operator? = none := by
  rw [binding?_eq_none_iff]
  cases t.operator? with
  | none => simp
  | some op => simp

/-- An operator that binds tightly enough is taken. -/
theorem binding?_of_le {least : Nat} {t : Token} {op : Operator} (h : t.operator? = some op)
    (hle : least ≤ op.precedence) : binding? least t = some op := by
  rw [binding?, h, Option.filter_some, if_pos (by simpa using hle)]

/-- The end of the input is no operator. -/
theorem Cursor.operator?_current_nil {c : Cursor} (h : c.rest = []) :
    c.current.operator? = none := by
  rw [Cursor.current, h]
  rfl

/-! ### The chain that is ahead is taken -/

/-- A reader of operators takes the chain that is ahead and makes its tree, or finds the tree higher
than the nesting limit. -/
def Climbs (n : Nesting) (least : Nat) (operations : Measured → Descent Measured) : Prop :=
  ∀ left chain c after, Linked n c chain after → (∀ link ∈ chain, least ≤ link.1.precedence) →
    binding? least after.current = none →
    (operations left c).Ends
      (fun m b => m.expr = splitTree Span.join? left.expr chain ∧ b = after)
      fun e _ => e.cause = .nestingTooDeep n.limit ∧
        n.limit < (splitTree Span.join? left.expr chain).height

section

variable {n : Nesting} {op : Operator} {right : Measured} {tight loose : Chain} {c mid after : Cursor}

/-- Behind the operators that bind more tightly than some operator stands none that would be taken
with them. -/
theorem binding?_between {least : Nat} (hop : least ≤ op.precedence)
    (hlinks : Linked n mid loose after)
    (hloose : ∀ link ∈ loose.head?, link.1.precedence ≤ op.precedence)
    (hafter : binding? least after.current = none) :
    binding? (op.precedence + 1) mid.current = none := by
  cases hlinks with
  | nil =>
    rw [binding?_eq_none_iff] at hafter ⊢
    intro op' hop'
    have := hafter op' hop'
    omega
  | cons ahead operator operand expr links =>
    have hcurrent := (Linked.cons ahead operator operand expr links).operator?_current _ rfl
    have hle := hloose _ rfl
    rw [binding?_eq_none_iff, hcurrent]
    intro op' hop'
    obtain rfl := Option.some.inj hop'
    exact Nat.lt_succ_of_le hle

/-- A right operand takes the operators that bind more tightly. -/
theorem rightOperand_climbs {narrow : Measured → Descent Measured}
    (hnarrow : Climbs n (op.precedence + 1) narrow) (hlinks : Linked n c tight mid)
    (htight : ∀ link ∈ tight, op.precedence < link.1.precedence)
    (hmid : binding? (op.precedence + 1) mid.current = none) :
    (rightOperand op narrow right c).Ends
      (fun m b => m.expr = splitTree Span.join? right.expr tight ∧ b = mid)
      fun e _ => e.cause = .nestingTooDeep n.limit ∧
        n.limit < (splitTree Span.join? right.expr tight).height := by
  simp only [rightOperand, ends_bind, ends_peek]
  split
  · exact hnarrow right tight c mid hlinks htight hmid
  · next hnone =>
    -- no operator binds more tightly: `tight` is empty
    cases hlinks with
    | nil => exact ⟨(splitTree_nil _ _).symm, rfl⟩
    | cons ahead operator operand expr links =>
      have hcurrent := (Linked.cons ahead operator operand expr links).operator?_current _ rfl
      rw [binding?_of_le hcurrent (htight _ List.mem_cons_self)] at hnone
      exact absurd rfl hnone

/-- An operator takes its right operand, and the operators after that are taken. -/
theorem operation_climbs {least : Nat} {primary : Descent Measured}
    {narrow wide : Measured → Descent Measured} {left : Measured} {chain : Chain} {token : Token}
    (hprimary : (primary c).Ends (fun m b => m = right ∧ b = mid) fun _ _ => False)
    (hnarrow : Climbs n (op.precedence + 1) narrow) (hwide : Climbs n least wide)
    (hlinks : Linked n mid chain after) (hop : least ≤ op.precedence)
    (hchain : ∀ link ∈ chain, least ≤ link.1.precedence)
    (hafter : binding? least after.current = none) :
    ((do
      let right ← primary
      let right ← rightOperand op narrow right
      let node ← checked n.limit token (.binary op left right)
      wide node : Descent Measured) c).Ends
      (fun m b => m.expr = splitTree Span.join? left.expr ((op, right.expr) :: chain) ∧ b = after)
      fun e _ => e.cause = .nestingTooDeep n.limit ∧
        n.limit < (splitTree Span.join? left.expr ((op, right.expr) :: chain)).height := by
  obtain ⟨tight, loose, rfl, htight, hloose⟩ := exists_tight op.precedence chain
  obtain ⟨between, htightlinks, hlooselinks⟩ := hlinks.divide
  rw [splitTree_operation Span.join? left.expr op right.expr htight loose hloose]
  -- the right operand is no higher than the node, and the node no higher than the tree
  have hnode := height_first_le_splitTree Span.join?
    (.binary op left.expr (splitTree Span.join? right.expr tight)
      (Span.join? left.expr.span (splitTree Span.join? right.expr tight).span)) loose
  have hoperand : (splitTree Span.join? right.expr tight).height ≤ _ :=
    Nat.le_trans (by rw [Expr.height]; omega) hnode
  simp only [ends_bind]
  refine hprimary.mono ?_ fun _ _ h => h.elim
  rintro _ _ ⟨rfl, rfl⟩
  refine (rightOperand_climbs hnarrow htightlinks htight
    (binding?_between hop hlooselinks hloose hafter)).mono ?_ fun e _ h => ⟨h.1, by omega⟩
  rintro operand _ ⟨hexpr, rfl⟩
  rw [← hexpr] at hnode ⊢
  refine ends_checked (fun _ => ?_) fun hhigh => ⟨rfl, ?_⟩
  · exact hwide (.binary op left operand) loose _ after hlooselinks
      (fun link hlink => hchain link (List.mem_append_right _ hlink)) hafter
  · rw [← (Measured.binary op left operand).height_eq] at hhigh
    exact Int.lt_of_lt_of_le hhigh (Int.ofNat_le.mpr hnode)

end

/-- Whatever their fuel, the readers of operators climb. -/
theorem operationsWithin_climbs (fuel : Nat) (n : Nesting) (least : Nat) :
    Climbs n least (operationsWithin fuel n least) := by
  induction fuel generalizing least with
  | zero => exact fun _ _ _ _ _ _ _ => trivial
  | succ fuel ih =>
    intro left chain c after hlinks hchain hafter
    unfold operationsWithin
    cases hlinks with
    | nil =>
      refine ends_takeIf (fun t rest op hrest hop => ?_) fun _ => ⟨(splitTree_nil _ _).symm, rfl⟩
      rw [Cursor.current, hrest, hop] at hafter
      contradiction
    | @cons _ mid _ t rest op m _ chain ahead operator operand expr links =>
      subst expr
      rw [List.forall_mem_cons] at hchain
      have htaken := binding?_of_le operator hchain.1
      refine ends_takeIf (fun t' rest' op' hrest hop => ?_) fun hnone => ?_
      · obtain ⟨rfl, rfl⟩ := List.cons.inj (ahead.symm.trans hrest)
        obtain rfl := Option.some.inj (htaken.symm.trans hop)
        exact operation_climbs (primaryWithin_finds operand fuel) (ih _) (ih _) links hchain.1
          hchain.2 hafter
      · rw [hnone t rest ahead] at htaken
        contradiction

/-! ### What is taken is a chain -/

/-- Behind a left operand a chain was taken, with nothing left of it, and its tree was made. -/
def Climbed (n : Nesting) (least : Nat) (left : Measured) (c : Cursor) (m : Measured)
    (after : Cursor) : Prop :=
  ∃ chain, Linked n c chain after ∧ (∀ link ∈ chain, least ≤ link.1.precedence) ∧
    binding? least after.current = none ∧ m.expr = splitTree Span.join? left.expr chain

/-- Whatever their fuel, what the readers of operators have taken is a chain. -/
theorem operationsWithin_climbed (fuel : Nat) (n : Nesting) (least : Nat) (left : Measured)
    (c : Cursor) :
    (operationsWithin fuel n least left c).Ends (Climbed n least left c) fun _ _ => True := by
  induction fuel generalizing least left c with
  | zero => trivial
  | succ fuel ih =>
    unfold operationsWithin
    refine ends_takeIf (fun t rest op hrest hop => ?_) fun hnone => ?_
    · obtain ⟨hcontent, hle⟩ := content_of_binding? hop
      have hoperator : t.operator? = some op := by rw [Token.operator?, hcontent]
      simp only [ends_bind]
      refine (primaryWithin_ends fuel n (c.pass t rest)).mono ?_ fun _ _ _ => trivial
      intro right mid hprimary
      have hright : (rightOperand op (operationsWithin fuel n (op.precedence + 1)) right mid).Ends
          (Climbed n (op.precedence + 1) right mid) fun _ _ => True := by
        simp only [rightOperand, ends_bind, ends_peek]
        split
        · exact ih _ right mid
        · next hnone =>
          refine ⟨[], .nil mid, by simp, ?_, (splitTree_nil _ _).symm⟩
          simpa using hnone
      refine hright.mono ?_ fun _ _ _ => trivial
      rintro operand between ⟨tight, htightlinks, htight, hbetween, hoperand⟩
      refine ends_checked (fun _ => ?_) fun _ => trivial
      refine (ih least (.binary op left operand) between).mono ?_ fun _ _ _ => trivial
      rintro m after ⟨loose, hlooselinks, hloose, hafter, hm⟩
      refine ⟨(op, right.expr) :: (tight ++ loose),
        .cons hrest hoperator hprimary rfl (htightlinks.append hlooselinks), ?_, hafter, ?_⟩
      · rw [List.forall_mem_cons, List.forall_mem_append]
        refine ⟨hle, fun link hlink => ?_, hloose⟩
        have := htight link hlink
        omega
      · have hhead : ∀ link ∈ loose.head?, link.1.precedence ≤ op.precedence := by
          intro link hlink
          have hcurrent := hlooselinks.operator?_current link hlink
          exact Nat.le_of_lt_succ ((binding?_eq_none_iff _ _).mp hbetween link.1 hcurrent)
        rw [splitTree_operation Span.join? left.expr op right.expr htight loose hhead, ← hoperand]
        exact hm
    · refine ⟨[], .nil c, by simp, ?_, (splitTree_nil _ _).symm⟩
      cases hrest : c.rest with
      | nil => rw [binding?, Cursor.operator?_current_nil hrest, Option.filter_none]
      | cons t rest =>
        rw [Cursor.current, hrest]
        exact hnone t rest hrest

/-! ### Chains and expressions -/

section

variable {n : Nesting} {c after : Cursor} {first : Expr} {chain : Chain}

/-- The chain that is ahead is taken as a whole. -/
theorem chainWithin_climbs (h : Chained n c first chain after) (fuel : Nat) :
    (chainWithin fuel n c).Ends (fun m b => m.expr = splitTree Span.join? first chain ∧ b = after)
      fun e _ => e.cause = .nestingTooDeep n.limit ∧
        n.limit < (splitTree Span.join? first chain).height := by
  obtain ⟨⟨m, mid, hprimary, rfl, hlinks⟩, hlast⟩ := h
  cases fuel with
  | zero => trivial
  | succ fuel =>
    simp only [chainWithin, ends_bind]
    refine (primaryWithin_finds hprimary fuel).mono ?_ fun _ _ h => h.elim
    rintro _ _ ⟨rfl, rfl⟩
    exact operationsWithin_climbs fuel n 0 _ chain _ after hlinks (fun _ _ => Nat.zero_le _)
      ((binding?_zero_eq_none_iff _).mpr hlast)

/-- What is taken is a chain. -/
theorem chainWithin_climbed (fuel : Nat) (n : Nesting) (c : Cursor) :
    (chainWithin fuel n c).Ends
      (fun m after => ∃ first chain, Chained n c first chain after ∧
        m.expr = splitTree Span.join? first chain) fun _ _ => True := by
  cases fuel with
  | zero => trivial
  | succ fuel =>
    simp only [chainWithin, ends_bind]
    refine (primaryWithin_ends fuel n c).mono ?_ fun _ _ _ => trivial
    intro left mid hprimary
    refine (operationsWithin_climbed fuel n 0 left mid).mono ?_ fun _ _ _ => trivial
    rintro m after ⟨chain, hlinks, _, hlast, hm⟩
    exact ⟨left.expr, chain, ⟨⟨left, mid, hprimary, rfl, hlinks⟩,
      (binding?_zero_eq_none_iff _).mp hlast⟩, hm⟩

/-- A group is the tree of the chain inside it. -/
theorem primaryAt_group {t : Token} {rest : List Token} {m : Measured} (hrest : c.rest = t :: rest)
    (ht : t.kind = .punctuation .leftParen) (h : primaryAt n c = (.ok m, after)) :
    ∃ first chain mid close more,
      Chained { n with groups := n.groups + 1 } (c.pass t rest) first chain mid ∧
      mid.rest = close :: more ∧ close.kind = .punctuation .rightParen ∧
      after = mid.pass close more ∧ m.expr = splitTree Span.join? first chain := by
  have hopening : opening? t = some .group := opening?_of_content (content_of_kind_mark ht)
  have hends : (primaryWithin (4 * c.rest.length + 1) n c).Ends
      (fun m after => ∃ first chain mid close more,
        Chained { n with groups := n.groups + 1 } (c.pass t rest) first chain mid ∧
        mid.rest = close :: more ∧ close.kind = .punctuation .rightParen ∧
        after = mid.pass close more ∧ m.expr = splitTree Span.join? first chain)
      fun _ _ => True := by
    simp only [primaryWithin, ends_bind]
    refine ends_take (fun t' rest' opening hrest' hopening' => ?_) trivial
    obtain ⟨rfl, rfl⟩ := List.cons.inj (hrest.symm.trans hrest')
    obtain rfl := Option.some.inj (hopening.symm.trans hopening')
    simp only [grouping]
    split
    · trivial
    · simp only [ends_bind, ends_pure]
      refine (chainWithin_climbed _ _ _).mono ?_ fun _ _ _ => trivial
      rintro m mid ⟨first, chain, hchained, hm⟩
      exact ends_expect (fun close more hmore hclose =>
        ⟨first, chain, mid, close, more, hchained, hmore, hclose, rfl, hm⟩) trivial
  rw [(finish_eq_ok _).mp h] at hends
  exact hends

end

/-- The nesting of what is inside an expression. -/
abbrev Nesting.inside (n : Nesting) : Nesting := { n with expressions := n.expressions + 1 }

/-- Precedence climbing is splitting. Whatever chain of operators and operands stands at the cursor,
an expression that is read there is the tree got by splitting the chain at the last operator of the
lowest precedence, and its parts likewise, unless that tree is higher than the nesting limit or too
many expressions are open already, which is then what the parser complains of. Nothing else is read
as an expression, and an operand in parentheses is the tree of its own chain. Comparisons bind least
tightly and products most tightly. -/
theorem climbing_is_splitting :
    (∀ (n : Nesting) (c : Cursor) (first : Expr) (chain : Chain) (after : Cursor),
      Chained n.inside c first chain after →
        (∃ m, expressionAt n c = (.ok m, after) ∧ m.expr = splitTree Span.join? first chain) ∨
        ((n.limit ≤ n.expressions ∨ n.limit < (splitTree Span.join? first chain).height) ∧
          ∃ e b, expressionAt n c = (.error e, b) ∧ e.cause = .nestingTooDeep n.limit)) ∧
    (∀ (n : Nesting) (c : Cursor) (m : Measured) (after : Cursor),
      expressionAt n c = (.ok m, after) → ∃ first chain, Chained n.inside c first chain after ∧
        m.expr = splitTree Span.join? first chain) ∧
    (∀ (n : Nesting) (c : Cursor) (t : Token) (rest : List Token) (m : Measured) (after : Cursor),
      c.rest = t :: rest → t.kind = .punctuation .leftParen → primaryAt n c = (.ok m, after) →
        ∃ first chain mid close more,
          Chained { n with groups := n.groups + 1 } (c.pass t rest) first chain mid ∧
          mid.rest = close :: more ∧ close.kind = .punctuation .rightParen ∧
          after = mid.pass close more ∧ m.expr = splitTree Span.join? first chain) ∧
    ∀ op op' : Operator, op.precedence < op'.precedence ↔
      (op ∈ [Operator.equals, .lessThan] ∧ op' ∉ [Operator.equals, .lessThan]) ∨
        (op ∈ [Operator.plus, .minus] ∧ op' ∈ [Operator.times, .divide, .modulo]) := by
  refine ⟨?_, ?_, fun n c t rest m after => primaryAt_group, ?_⟩
  · intro n c first chain after h
    have hends : (expressionWithin (4 * c.rest.length + 3) n c).Ends
        (fun m b => m.expr = splitTree Span.join? first chain ∧ b = after)
        fun e _ => e.cause = .nestingTooDeep n.limit ∧
          (n.limit ≤ n.expressions ∨ n.limit < (splitTree Span.join? first chain).height) := by
      unfold expressionWithin
      split
      · next hfull => exact ⟨rfl, .inl hfull⟩
      · exact (chainWithin_climbs h _).mono (fun _ _ h => h) fun _ _ h => ⟨h.1, .inr h.2⟩
    rcases finish_of_ends hends _ with ⟨m, b, hfinish, hm, rfl⟩ | ⟨e, b, hfinish, hcause, hlimit⟩
    · exact .inl ⟨m, hfinish, hm⟩
    · exact .inr ⟨hlimit, e, b, hfinish, hcause⟩
  · intro n c m after h
    have hends : (expressionWithin (4 * c.rest.length + 3) n c).Ends
        (fun m after => ∃ first chain, Chained n.inside c first chain after ∧
          m.expr = splitTree Span.join? first chain) fun _ _ => True := by
      unfold expressionWithin
      split
      · trivial
      · exact chainWithin_climbed _ _ c
    rw [(finish_eq_ok _).mp h] at hends
    exact hends
  · intro op op'
    cases op <;> cases op' <;> decide

/-- In `a < b + (c - d) * e - f = g` the comparisons are split last to first, then the difference,
then the sum. The group stays as it is: it is the tree of the chain inside it. -/
theorem climbing_up_and_down :
    let tokens := ([.identifier "a", .operator .lessThan, .identifier "b", .operator .plus,
      mark .leftParen, .identifier "c", .operator .minus, .identifier "d", mark .rightParen,
      .operator .times, .identifier "e", .operator .minus, .identifier "f", .operator .equals,
      .identifier "g"] : List TokenContent).map Token.ofContent
    let name (s : String) : Expr := .var s none
    let difference := Expr.binary .minus (name "c") (name "d") none
    (∃ m after first chain, expression 7 (.start tokens) = (.ok m, after) ∧
      m.expr = .binary .equals
        (.binary .lessThan (name "a")
          (.binary .minus
            (.binary .plus (name "b") (.binary .times difference (name "e") none) none)
            (name "f") none) none)
        (name "g") none ∧
      Chained { limit := 7, expressions := 1 } (.start tokens) first chain after) ∧
    ∃ first chain mid,
      Chained { limit := 7, expressions := 1, groups := 1 }
        ⟨(tokens.take 5).reverse, tokens.drop 5⟩ first chain mid ∧
      difference = splitTree Span.join? first chain := by
  intro tokens name difference
  let chain : Chain := [(.lessThan, name "b"), (.plus, difference), (.times, name "e"),
    (.minus, name "f"), (.equals, name "g")]
  have hchained : Chained (Nesting.inside { limit := 7 }) (.start tokens) (name "a") chain
      ⟨tokens.reverse, []⟩ :=
    ⟨⟨_, _, rfl, rfl, .cons rfl rfl rfl rfl <| .cons rfl rfl rfl rfl <| .cons rfl rfl rfl rfl <|
      .cons rfl rfl rfl rfl <| .cons rfl rfl rfl rfl <| .nil _⟩, rfl⟩
  constructor
  · have hread := climbing_is_splitting.1 { limit := 7 } (.start tokens) _ _ _ hchained
    -- split at `=`, then at `<`, at `-`, at `+` and at `*`
    rw [splitTree_of_splitChain _ _ rfl, splitTree_of_splitChain _ (name "a") rfl,
      splitTree_of_splitChain _ (name "b") rfl, splitTree_of_splitChain _ (name "b") rfl,
      splitTree_of_splitChain _ difference rfl] at hread
    simp only [splitTree_nil] at hread
    rcases hread with ⟨m, hm, hexpr⟩ | ⟨hhit, _⟩
    · obtain ⟨first, links, hlinks, _⟩ := climbing_is_splitting.2.1 _ _ _ _ hm
      exact ⟨m, _, first, links, hm, hexpr, hlinks⟩
    · exact absurd hhit (by decide)
  · obtain ⟨first, links, mid, _, _, hlinks, _, _, _, hexpr⟩ :=
      climbing_is_splitting.2.2.1 { limit := 7, expressions := 1 }
        ⟨(tokens.take 4).reverse, tokens.drop 4⟩ _ _ _ _ rfl rfl rfl
    exact ⟨first, links, mid, hlinks, hexpr⟩

end Formulary.Parser
