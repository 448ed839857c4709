import Formulary.Proofs.Descent.Programs
import Formulary.Proofs.Grammar.Nodes

/-!
# Where trees lie in a token list

The parser gives spans to trees in two ways. A primary expression gets the places of its first token
and of the last token taken; an operator gets the first place of its left operand and the last place
of its right one. Grouping parentheses belong to no span, but they do belong to the span of a call, a
condition or a loop around them. `Laid` says what both ways have in common: a tree runs from one token
of the list to another, and between these its parts lie one after the other (`LaidAll`). It is kept by
every step of the descents, also where an operand is taken over by an operator that binds more tightly.
-/

namespace Formulary

/-- The trees of a statement. -/
def Statement.trees : Statement → List Expr
  | .foreign _ => []
  | .definition d => [d.body]
  | .expression e => [e]

namespace Parser

open Descent

/-- The tokens of a list from one index to another spell a primary expression, and its words without
grouping parentheses are those of the tree. -/
def Covers (tokens : List Token) (e : Expr) (i j : Nat) : Prop :=
  ∃ p : Primary, ((tokens.map Token.content).drop i).take (j + 1 - i) = p.spell true ∧
    e.flat = p.spell false

mutual

/-- A tree runs from the token of one index to that of another: its span says so, and its parts lie
between. An operator begins with its left operand, a primary expression with its own first word. -/
inductive Laid (tokens : List Token) : Expr → Nat → Nat → Prop
  | binary {op left right s i j} {t u : Token} (first : tokens[i]? = some t)
    (last : tokens[j]? = some u) (le : i ≤ j) (span : s = Span.between? t.location u.location)
    (parts : LaidAll tokens [left, right] i (j + 1)) : Laid tokens (.binary op left right s) i j
  | primary {e i j} {t u : Token} (first : tokens[i]? = some t) (last : tokens[j]? = some u)
    (le : i ≤ j) (span : e.span = Span.between? t.location u.location)
    (own : e.flat.head? = some t.content) (covers : Covers tokens e i j)
    (parts : LaidAll tokens e.children (i + 1) (j + 1)) : Laid tokens e i j

/-- Trees lie one after the other, from some index of the list up to another. -/
inductive LaidAll (tokens : List Token) : List Expr → Nat → Nat → Prop
  | nil {a b} (le : a ≤ b) : LaidAll tokens [] a b
  | cons {e es a i j b} (before : a ≤ i) (head : Laid tokens e i j)
    (tail : LaidAll tokens es (j + 1) b) : LaidAll tokens (e :: es) a b

end

section

variable {tokens : List Token} {e : Expr} {es es' : List Expr} {a a' b b' c i j : Nat}

namespace Laid

/-- The two ends of a tree. -/
theorem ends (h : Laid tokens e i j) : i ≤ j ∧ ∃ t u, tokens[i]? = some t ∧
    tokens[j]? = some u ∧ e.span = Span.between? t.location u.location := by
  cases h with
  | binary first last le span parts => exact ⟨le, _, _, first, last, span⟩
  | primary first last le span own covers parts => exact ⟨le, _, _, first, last, span⟩

/-- A tree by itself. -/
theorem alone (h : Laid tokens e i j) (before : a ≤ i) (behind : j < b) : LaidAll tokens [e] a b :=
  .cons before h (.nil behind)

end Laid

namespace LaidAll

/-- Trees lie forwards. -/
theorem le (h : LaidAll tokens es a b) : a ≤ b := by
  induction es generalizing a with
  | nil =>
    cases h with
    | nil le => exact le
  | cons e es ih =>
    cases h with
    | cons before head tail =>
      have := head.ends.1
      have := ih tail
      omega

/-- There may be more room on both sides. -/
theorem mono (h : LaidAll tokens es a b) (ha : a' ≤ a) (hb : b ≤ b') :
    LaidAll tokens es a' b' := by
  induction es generalizing a a' with
  | nil => exact .nil (Nat.le_trans ha (Nat.le_trans h.le hb))
  | cons e es ih =>
    cases h with
    | cons before head tail => exact .cons (Nat.le_trans ha before) head (ih tail (Nat.le_refl _))

/-- Trees behind others. -/
theorem append (h : LaidAll tokens es a b) (h' : LaidAll tokens es' b c) :
    LaidAll tokens (es ++ es') a c := by
  induction es generalizing a with
  | nil => exact h'.mono h.le (Nat.le_refl _)
  | cons e es ih =>
    cases h with
    | cons before head tail => exact .cons before head (ih tail)

/-- Each of the trees lies somewhere between. -/
theorem of_mem (h : LaidAll tokens es a b) (he : e ∈ es) :
    ∃ i j, a ≤ i ∧ j < b ∧ Laid tokens e i j := by
  induction es generalizing a with
  | nil => contradiction
  | cons x es ih =>
    cases h with
    | @cons _ _ _ i j _ before head tail =>
      have hle := head.ends.1
      rcases List.mem_cons.mp he with rfl | he
      · exact ⟨i, j, before, tail.le, head⟩
      · obtain ⟨k, l, hk, hl, hlaid⟩ := ih tail he
        exact ⟨k, l, by omega, hl, hlaid⟩

end LaidAll

/-- The parts of a tree lie between its ends. -/
theorem Laid.children (h : Laid tokens e i j) : LaidAll tokens e.children i (j + 1) := by
  cases h with
  | binary first last le span parts => exact parts
  | primary first last le span own covers parts => exact parts.mono (Nat.le_succ i) (Nat.le_refl _)

/-- Every node of a tree runs from some token to another. -/
theorem Laid.node {node : Expr} (h : Laid tokens e i j) (hnode : node ∈ e.preorder) :
    ∃ i j, Laid tokens node i j := by
  induction e using Expr.parts_induct generalizing i j with
  | h e ih =>
    rcases Expr.mem_preorder.mp hnode with rfl | ⟨part, hpart, hnode⟩
    · exact ⟨i, j, h⟩
    · obtain ⟨k, l, _, _, hlaid⟩ := h.children.of_mem hpart
      exact ih part hpart hlaid hnode

end

/-! ### Trees between cursors -/

namespace Cursor

/-- The token ahead of a cursor is the one at its index. -/
theorem tokens_getElem?_index {c : Cursor} {t : Token} {rest : List Token} (h : c.rest = t :: rest) :
    c.tokens[c.index]? = some t := by
  simp [tokens, index, h]

/-- The token behind a cursor is the one before its index. -/
theorem exists_last {c : Cursor} (h : 0 < c.index) :
    ∃ u, c.tokens[c.index - 1]? = some u ∧ c.lastLocation = u.location := by
  unfold tokens lastLocation
  unfold index at h ⊢
  cases hconsumed : c.consumed with
  | nil =>
    rw [hconsumed] at h
    contradiction
  | cons u consumed => exact ⟨u, by simp, rfl⟩

/-- Passing a token leaves the list as it is. -/
theorem tokens_pass {c : Cursor} {t : Token} {rest : List Token} (h : c.rest = t :: rest) :
    (c.pass t rest).tokens = c.tokens := by
  simp [tokens, pass, h]

/-- What was passed is a piece of the list. -/
theorem Spells.piece {c after : Cursor} {words : List TokenContent} (h : c.Spells words after) :
    ((c.tokens.map Token.content).drop c.index).take (after.index - c.index) = words := by
  have hindex := h.index_eq
  obtain ⟨ts, rfl, hrest, _⟩ := h
  rw [hindex, Nat.add_sub_cancel_left, tokens, hrest, List.map_append, List.map_append,
    List.drop_left' (by simp [index]), List.take_left]

/-- Passing tokens leaves the list as it is. -/
theorem Spells.tokens_eq {c after : Cursor} {words : List TokenContent} (h : c.Spells words after) :
    after.tokens = c.tokens := by
  obtain ⟨ts, _, hrest, hconsumed⟩ := h
  simp [tokens, hrest, hconsumed]

end Cursor

/-- Between two cursors of a list lie some trees. -/
structure Lays (tokens : List Token) (es : List Expr) (c after : Cursor) : Prop where
  same : after.tokens = tokens
  laid : LaidAll tokens es c.index after.index

/-- Where a descent succeeds, the trees of its value lie between the cursors before and behind. -/
def Lands {α : Type} (tokens : List Token) (trees : α → List Expr) (p : Descent α) : Prop :=
  ∀ c, c.tokens = tokens → (p c).Ends (fun a after => Lays tokens (trees a) c after) fun _ _ => True

section

variable {tokens : List Token} {es es' : List Expr} {a b c : Cursor}

namespace Lays

/-- Nothing lies where the cursor stays. -/
theorem refl (h : c.tokens = tokens) : Lays tokens [] c c := ⟨h, .nil (Nat.le_refl _)⟩

/-- A token is passed behind the trees. -/
theorem pass {t : Token} {rest : List Token} (h : Lays tokens es a b) (hrest : b.rest = t :: rest) :
    Lays tokens es a (b.pass t rest) :=
  ⟨(Cursor.tokens_pass hrest).trans h.same, h.laid.mono (Nat.le_refl _) (Nat.le_succ _)⟩

/-- Trees behind others. -/
theorem append (h : Lays tokens es a b) (h' : Lays tokens es' b c) :
    Lays tokens (es ++ es') a c := ⟨h'.same, h.laid.append h'.laid⟩

/-- What was read from behind a token was read from before it. -/
theorem behind {t : Token} {rest : List Token} (h : Lays tokens es (a.pass t rest) b) :
    Lays tokens es a b :=
  ⟨h.same, h.laid.mono (Nat.le_succ _) (Nat.le_refl _)⟩

end Lays

/-- Reading a part behind what was read before. -/
theorem ends_landed {α : Type} {trees : α → List Expr} {p : Descent α}
    {good : α → Cursor → Prop} (hp : Lands tokens trees p) (h : Lays tokens es a b)
    (hgood : ∀ x after, Lays tokens (es ++ trees x) a after → good x after) :
    (p b).Ends good fun _ _ => True :=
  (hp b h.same).mono (fun x after hlays => hgood x after (h.append hlays)) fun _ _ h => h

/-- Asking for a token behind what was read before. -/
theorem ends_passed {k : TokenKind} {context : Option String} {good : Token → Cursor → Prop}
    (h : Lays tokens es a b) (hgood : ∀ t after, Lays tokens es a after → good t after) :
    (expect k context b).Ends good fun _ _ => True :=
  ends_expect (fun t _ hrest _ => hgood t _ (h.pass hrest)) trivial

end

/-! ### The descents of the grammar -/

section

variable {tokens : List Token} {n : Nesting} {c b after : Cursor} {t : Token} {rest : List Token}
  {e : Descent Measured}

/-- A primary expression that was read from its own first token on, with its parts behind that. -/
theorem Lays.primary {m : Measured} (hrest : c.rest = t :: rest)
    (h : Lays tokens m.expr.children (c.pass t rest) after)
    (hspan : m.expr.span = Span.between? t.location after.lastLocation)
    (hown : m.expr.flat.head? = some t.content) (hreads : ReadsPrimary n c m after) :
    Lays tokens [m.expr] c after := by
  obtain ⟨p, hspells, hflat, -, -⟩ := hreads
  have htokens : c.tokens = tokens := hspells.tokens_eq.symm.trans h.same
  have hle : c.index + 1 ≤ after.index := h.laid.le
  have hindex : after.index - 1 + 1 = after.index := by omega
  obtain ⟨u, hlast, hlocation⟩ := Cursor.exists_last (Nat.lt_of_lt_of_le (Nat.succ_pos _) hle)
  have hfirst := Cursor.tokens_getElem?_index hrest
  have hpiece := hspells.piece
  rw [htokens] at hfirst hpiece
  rw [h.same] at hlast
  rw [hlocation] at hspan
  refine ⟨h.same, Laid.alone (.primary hfirst hlast (by omega) hspan hown ?_ ?_) (Nat.le_refl _) ?_⟩
  · exact ⟨p, by rwa [hindex], hflat⟩
  · rw [hindex]
    exact h.laid
  · omega

/-- A tree, as the only one of a value. -/
abbrev Measured.trees (m : Measured) : List Expr := [m.expr]

/-- A condition lies where it was read. -/
theorem conditional_lays (he : Lands tokens Measured.trees e) (hc : c.tokens = tokens)
    (hrest : c.rest = t :: rest) (hword : t.content = word .ifWord) :
    (conditional n.limit e t (c.pass t rest)).Ends
      (fun m after => ReadsPrimary n c m after → Lays tokens m.trees c after) fun _ _ => True := by
  have h : Lays tokens [] (c.pass t rest) (c.pass t rest) :=
    .refl ((Cursor.tokens_pass hrest).trans hc)
  simp only [conditional, ends_bind, ends_spanFrom]
  refine ends_landed he h fun m₁ _ h => ?_
  refine ends_passed h fun _ _ h => ?_
  refine ends_landed he h fun m₂ _ h => ?_
  refine ends_passed h fun _ _ h => ?_
  refine ends_landed he h fun m₃ _ h => ?_
  exact ends_checked (fun _ => .primary hrest h rfl (congrArg some hword.symm)) fun _ => trivial

/-- A loop lies where it was read. -/
theorem forLoop_lays (he : Lands tokens Measured.trees e) (hc : c.tokens = tokens)
    (hrest : c.rest = t :: rest) (hword : t.content = word .forWord) :
    (forLoop n.limit e t (c.pass t rest)).Ends
      (fun m after => ReadsPrimary n c m after → Lays tokens m.trees c after) fun _ _ => True := by
  have h : Lays tokens [] (c.pass t rest) (c.pass t rest) :=
    .refl ((Cursor.tokens_pass hrest).trans hc)
  simp only [forLoop, name, ends_bind, ends_spanFrom]
  refine ends_take (fun _ _ counter hcounter _ => ?_) trivial
  refine ends_take (fun _ _ _ hequals _ => ?_) trivial
  have h := (h.pass hcounter).pass hequals
  refine ends_landed he h fun m₁ _ h => ?_
  refine ends_passed h fun _ _ h => ?_
  refine ends_landed he h fun m₂ _ h => ?_
  refine ends_takeIf (fun _ _ _ hcomma _ => ?_) fun _ => ?_
  · simp only [ends_map]
    refine ends_landed he (h.pass hcomma) fun m₃ _ h => ?_
    refine ends_passed h fun _ _ h => ?_
    refine ends_landed he h fun m₄ _ h => ?_
    exact ends_checked (fun _ => .primary hrest h rfl (congrArg some hword.symm)) fun _ => trivial
  · refine ends_passed h fun _ _ h => ?_
    refine ends_landed he h fun m₄ _ h => ?_
    exact ends_checked (fun _ => .primary hrest h rfl (congrArg some hword.symm)) fun _ => trivial

/-- A variable or a call lies where it was read. -/
theorem variableOrCall_lays {arguments : Descent (List Measured)}
    (ha : Lands tokens (List.map Measured.expr) arguments) (hc : c.tokens = tokens) {name : String}
    (hrest : c.rest = t :: rest) (hword : t.content = .identifier name) :
    (variableOrCall n.limit arguments t name (c.pass t rest)).Ends
      (fun m after => ReadsPrimary n c m after → Lays tokens m.trees c after) fun _ _ => True := by
  have h : Lays tokens [] (c.pass t rest) (c.pass t rest) :=
    .refl ((Cursor.tokens_pass hrest).trans hc)
  refine ends_takeIf (fun _ _ _ hparen _ => ?_) fun _ => ?_
  · have h := h.pass hparen
    simp only [callArguments, argumentsIfAny, ends_bind, ends_peek]
    split
    · rw [ends_pure]
      refine ends_passed h fun _ _ h => ?_
      simp only [ends_spanFrom]
      exact ends_checked (fun _ => .primary hrest h rfl (congrArg some hword.symm)) fun _ => trivial
    · refine ends_landed ha h fun ms _ h => ?_
      refine ends_passed h fun _ _ h => ?_
      simp only [ends_spanFrom]
      exact ends_checked (fun _ => .primary hrest h rfl (congrArg some hword.symm)) fun _ => trivial
  · simp only [variableRef, ends_bind, ends_spanFrom, ends_pure]
    exact .primary hrest h rfl (congrArg some hword.symm)

/-- A group lies behind its opening parenthesis. -/
theorem grouping_lays {chain : Nesting → Descent Measured} (hc : c.tokens = tokens)
    (hrest : c.rest = t :: rest)
    (hchain : (n.groups : Int) + 1 ≤ n.limit →
      Lands tokens Measured.trees (chain { n with groups := n.groups + 1 })) :
    (grouping n chain t (c.pass t rest)).Ends
      (fun m after => ReadsPrimary n c m after → Lays tokens m.trees c after) fun _ _ => True := by
  have h : Lays tokens [] c (c.pass t rest) := (Lays.refl hc).pass hrest
  unfold grouping
  split
  · trivial
  · simp only [ends_bind, ends_pure]
    refine ends_landed (hchain (by omega)) h fun m _ h => ?_
    exact ends_passed h fun _ _ h _ => h

end

/-- Every token has a place. -/
def Located (tokens : List Token) : Prop := ∀ t ∈ tokens, ∃ l, t.location = some l

/-- A span joined from two spans goes from the first place to the last, if those between are known. -/
theorem join?_between? {t u v w : Token} {l l' : Location} (hu : u.location = some l)
    (hv : v.location = some l') : Span.join? (Span.between? t.location u.location)
      (Span.between? v.location w.location) = Span.between? t.location w.location := by
  rw [hu, hv]
  cases t.location <;> cases w.location <;> rfl

/-- An operator lies where its operands do. -/
theorem Lays.binary {tokens : List Token} {a b c : Cursor} {left right : Measured}
    (hlocated : Located tokens) (h : Lays tokens left.trees a b) (h' : Lays tokens right.trees b c)
    (op : Operator) : Lays tokens (Measured.binary op left right).trees a c := by
  obtain ⟨i, k, hi, hk, hleft⟩ := h.laid.of_mem (List.mem_singleton_self _)
  obtain ⟨l, j, hl, hj, hright⟩ := h'.laid.of_mem (List.mem_singleton_self _)
  obtain ⟨hik, t, u, ht, hu, hspan⟩ := hleft.ends
  obtain ⟨hlj, v, w, hv, hw, hspan'⟩ := hright.ends
  obtain ⟨_, hplace⟩ := hlocated u (List.mem_of_getElem? hu)
  obtain ⟨_, hplace'⟩ := hlocated v (List.mem_of_getElem? hv)
  refine ⟨h'.same, Laid.alone (.binary ht hw (by omega) ?_ ?_) hi hj⟩
  · rw [hspan, hspan', join?_between? hplace hplace']
  · exact .cons (Nat.le_refl _) hleft (.cons (by omega) hright (.nil (Nat.le_refl _)))

/-- With some fuel, all descents into expressions leave trees where they were read. -/
structure LaysWithin (tokens : List Token) (fuel : Nat) : Prop where
  expression : ∀ n : Nesting, (n.groups : Int) ≤ max n.limit 0 →
    Lands tokens Measured.trees (expressionWithin fuel n)
  chain : ∀ n : Nesting, n.HasRoom → Lands tokens Measured.trees (chainWithin fuel n)
  primary : ∀ n : Nesting, n.HasRoom → Lands tokens Measured.trees (primaryWithin fuel n)
  operations : ∀ (n : Nesting) least (left : Measured) a c, n.HasRoom →
    Lays tokens left.trees a c → (operationsWithin fuel n least left c).Ends
      (fun m after => Lays tokens m.trees a after) fun _ _ => True
  arguments : ∀ n : Nesting, n.HasRoom →
    Lands tokens (List.map Measured.expr) (argumentsWithin fuel n)

namespace LaysWithin

variable {tokens : List Token}

/-- Without fuel nothing is read. -/
theorem zero : LaysWithin tokens 0 :=
  ⟨fun _ _ _ _ => trivial, fun _ _ _ _ => trivial, fun _ _ _ _ => trivial,
    fun _ _ _ _ _ _ _ => trivial, fun _ _ _ _ => trivial⟩

section

variable {fuel : Nat} {n : Nesting} (within : LaysWithin tokens fuel) (room : n.HasRoom)

include within

/-- With more fuel an expression is left where it was read. -/
theorem expression_succ (hgroups : (n.groups : Int) ≤ max n.limit 0) :
    Lands tokens Measured.trees (expressionWithin (fuel + 1) n) := by
  intro c hc
  unfold expressionWithin
  split
  · trivial
  · next hlevel =>
    have room : n.HasRoom := ⟨by omega, by omega⟩
    exact within.chain { n with expressions := n.expressions + 1 } ⟨room.level, room.groups⟩ c hc

include room

/-- Inside another expression there is room for one. -/
theorem inside : Lands tokens Measured.trees (expressionWithin fuel n) :=
  within.expression n (Int.le_trans room.groups (Int.le_max_left _ _))

/-- With more fuel a chain of operators is left where it was read. -/
theorem chain_succ : Lands tokens Measured.trees (chainWithin (fuel + 1) n) := by
  intro c hc
  simp only [chainWithin, ends_bind]
  exact ends_landed (within.primary n room) (.refl hc) fun left b h =>
    within.operations n 0 left c b room h

/-- With more fuel a primary expression is left where it was read. -/
theorem primary_succ : Lands tokens Measured.trees (primaryWithin (fuel + 1) n) := by
  intro c hc
  have hreads := (reads_within (fuel + 1)).primary n c room
  refine Outcome.Ends.mp ?_ hreads
  simp only [primaryWithin, ends_bind]
  refine ends_take (fun t rest opening hrest hopening => ?_) trivial
  have hword := content_of_opening? hopening
  cases opening with
  | number value =>
    simp only [ends_bind, ends_spanFrom, ends_pure]
    exact .primary hrest (.refl ((Cursor.tokens_pass hrest).trans hc)) rfl (congrArg some hword.symm)
  | identifier name => exact variableOrCall_lays (within.arguments n room) hc hrest hword
  | group => exact grouping_lays hc hrest fun hlimit => within.chain _ ⟨room.level, hlimit⟩
  | conditional => exact conditional_lays (within.inside room) hc hrest hword
  | loop => exact forLoop_lays (within.inside room) hc hrest hword

/-- With more fuel operators are left where their operands were read. -/
theorem operations_succ (hlocated : Located tokens) (least : Nat) {left : Measured} {a c : Cursor}
    (h : Lays tokens left.trees a c) : (operationsWithin (fuel + 1) n least left c).Ends
      (fun m after => Lays tokens m.trees a after) fun _ _ => True := by
  unfold operationsWithin
  refine ends_takeIf (fun t rest op hrest _ => ?_) fun _ => h
  have h := h.pass hrest
  simp only [ends_bind, rightOperand, ends_peek]
  refine ends_landed (within.primary n room) (.refl h.same) fun right b hright => ?_
  -- the right operand may take operators before the node is built
  have hnode (right : Measured) (b : Cursor) (hright : Lays tokens right.trees (c.pass t rest) b) :
      (checked n.limit t (.binary op left right) b).Ends
        (fun node after => (operationsWithin fuel n least node after).Ends
          (fun m after => Lays tokens m.trees a after) fun _ _ => True) fun _ _ => True :=
    ends_checked (fun _ => within.operations n least _ a b room (h.binary hlocated hright op))
      fun _ => trivial
  split
  · exact (within.operations n _ right _ b room hright).mono hnode fun _ _ h => h
  · exact hnode right b hright

/-- With more fuel arguments are left where they were read. -/
theorem arguments_succ : Lands tokens (List.map Measured.expr) (argumentsWithin (fuel + 1) n) := by
  intro c hc
  simp only [argumentsWithin, ends_bind, ends_peek]
  refine ends_landed (within.inside room) (.refl hc) fun m b h => ?_
  split
  · exact h
  · simp only [ends_bind, ends_pure]
    refine ends_take (fun t rest _ hrest _ => ?_) trivial
    exact ends_landed (within.arguments n room) (h.pass hrest) fun _ _ h => h

end

end LaysWithin

/-- All descents into expressions leave trees where they were read. -/
theorem lays_within {tokens : List Token} (hlocated : Located tokens) (fuel : Nat) :
    LaysWithin tokens fuel := by
  induction fuel with
  | zero => exact .zero
  | succ fuel within =>
    constructor
    · intro n hgroups
      exact within.expression_succ hgroups
    · intro n room
      exact within.chain_succ room
    · intro n room
      exact within.primary_succ room
    · intro n least left a c room h
      exact within.operations_succ room hlocated least h
    · intro n room
      exact within.arguments_succ room

/-! ### Statements -/

section

variable {tokens : List Token}

/-- In a prototype there are no trees. -/
theorem prototype_lands (fuel : Nat) : Lands tokens (fun _ => []) (prototypeWithin fuel) := by
  intro c hc
  have hmoves := moves_prototypeWithin fuel c
  cases h : prototypeWithin fuel c with
  | success p after =>
    rw [h] at hmoves
    exact ⟨hmoves.tokens.trans hc, .nil hmoves.index⟩
  | failure e after => trivial
  | cutShort => trivial

/-- The trees of a statement lie where it was read. -/
theorem statement_lands (hlocated : Located tokens) (fuel : Nat) (limit : Int) :
    Lands tokens (fun o => o.toList.flatMap Statement.trees) (statementWithin fuel limit) := by
  intro c hc
  have expression := (lays_within hlocated fuel).expression { limit } (Int.le_max_right _ _)
  have start : Lays tokens [] c c := .refl hc
  have formula : ((do
      let e ← expressionWithin fuel { limit }
      let _ ← expect (.punctuation .semicolon) "after top-level expression"
      return some (Statement.expression e.expr) : Descent (Option Statement)) c).Ends
        (fun o after => Lays tokens (o.toList.flatMap Statement.trees) c after) fun _ _ => True := by
    simp only [ends_bind, ends_pure]
    refine ends_landed expression start fun m _ h => ?_
    exact ends_passed h fun _ _ h => h
  unfold statementWithin
  simp only [ends_bind, ends_peek]
  cases c.current.kind with
  | keyword w =>
    cases w with
    | externWord =>
      simp only [foreignWithin, ends_bind, ends_pure]
      refine ends_passed start fun _ _ h => ?_
      refine ends_landed (prototype_lands fuel) h fun _ _ h => ?_
      exact ends_passed h fun _ _ h => h
    | defWord =>
      simp only [definitionWithin, ends_bind, ends_pure]
      refine ends_passed start fun _ _ h => ?_
      refine ends_landed (prototype_lands fuel) h fun _ _ h => ?_
      refine ends_landed expression h fun m _ h => ?_
      exact ends_passed h fun _ _ h => h
    | _ => exact formula
  | punctuation m =>
    cases m with
    | semicolon =>
      simp only [ends_bind, ends_pure]
      exact ends_passed start fun _ _ h => h
    | _ => exact formula
  | _ => exact formula

/-- The trees of all statements lie where they were read. -/
theorem statementsFrom_lays (hlocated : Located tokens) (limit : Int) (steps : Nat)
    {before : List Statement} {c : Cursor} {start : Cursor}
    (h : Lays tokens (before.reverse.flatMap Statement.trees) start c)
    (hnone : (statementsFrom limit steps before c).mistake = none) :
    Lays tokens ((statementsFrom limit steps before c).statements.flatMap Statement.trees) start
      (statementsFrom limit steps before c).cursor := by
  induction steps generalizing before c with
  | zero => exact h
  | succ steps ih =>
    unfold statementsFrom at hnone ⊢
    split
    · exact h
    · next hmore =>
      rw [if_neg hmore] at hnone
      have hlands := statement_lands hlocated (4 * c.rest.length + 3) limit c h.same
      split
      · next e after herror =>
        rw [herror] at hnone
        contradiction
      · next o after hok =>
        rw [hok] at hnone
        rw [(finish_eq_ok _).mp hok] at hlands
        refine ih ?_ hnone
        have hall := h.append hlands
        cases o <;> simpa using hall

/-- The trees of a program lie one after the other in the list that it was read from. -/
theorem parse_lays {limit : Int} {p : Program} (hlocated : Located tokens)
    (h : parse tokens limit = .ok p) : ∃ ss after, p = (Program.ofStatements ss).close ∧
      Lays tokens (ss.flatMap Statement.trees) (.start tokens) after := by
  unfold parse Reading.program at h
  split at h
  · contradiction
  · next hnone =>
    exact ⟨_, _, (Except.ok.inj h).symm,
      statementsFrom_lays hlocated limit _ (.refl (by simp [Cursor.start, Cursor.tokens])) hnone⟩

end

end Parser

end Formulary
