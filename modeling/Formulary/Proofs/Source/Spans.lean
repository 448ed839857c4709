import Formulary.Proofs.Descent.Placement
import Formulary.Proofs.Source.WellFormed

/-!
# Spans nest

The tokens of a text have places, and these go forwards. So the order in which the trees of a program
lie in the token list is the order of their spans in the text: a node spans its parts, and the spans of
its parts follow each other without touching. A node that is no operator begins at the token that is
its own first word.
-/

namespace Formulary

open Formulary.Parser

/-- The second span begins behind the last token of the first. -/
def Span.Before (s s' : Span) : Prop := s.last.offset < s'.first.offset

/-- The first span lies within the second. -/
structure Span.Within (s s' : Span) : Prop where
  first : s'.first.offset ≤ s.first.offset
  last : s.last.offset ≤ s'.last.offset

namespace Parser

/-- The tokens of a list have places, and these go forwards. -/
structure Ordered (tokens : List Token) : Prop where
  located : Located tokens
  forwards : tokens.Pairwise fun t u =>
    ∀ l l', t.location = some l → u.location = some l' → l.offset < l'.offset

/-- The token of an index has a place. -/
def Place (tokens : List Token) (i : Nat) (l : Location) : Prop :=
  ∃ t, tokens[i]? = some t ∧ t.location = some l

section

variable {tokens : List Token} {e : Expr} {es : List Expr} {a b i j : Nat} {l l' : Location}

namespace Ordered

/-- A later token has a greater offset. -/
theorem offset_lt (h : Ordered tokens) (hl : Place tokens i l) (hl' : Place tokens j l')
    (hlt : i < j) : l.offset < l'.offset := by
  obtain ⟨t, ht, hl⟩ := hl
  obtain ⟨u, hu, hl'⟩ := hl'
  obtain ⟨hi, rfl⟩ := List.getElem?_eq_some_iff.mp ht
  obtain ⟨hj, rfl⟩ := List.getElem?_eq_some_iff.mp hu
  exact List.pairwise_iff_getElem.mp h.forwards i j hi hj hlt l l' hl hl'

/-- A token that is no earlier has no smaller offset. -/
theorem offset_le (h : Ordered tokens) (hl : Place tokens i l) (hl' : Place tokens j l')
    (hle : i ≤ j) : l.offset ≤ l'.offset := by
  rcases Nat.eq_or_lt_of_le hle with rfl | hlt
  · obtain ⟨t, ht, hl⟩ := hl
    obtain ⟨u, hu, hl'⟩ := hl'
    obtain rfl := Option.some.inj (ht.symm.trans hu)
    obtain rfl := Option.some.inj (hl.symm.trans hl')
    exact Nat.le_refl _
  · exact Nat.le_of_lt (h.offset_lt hl hl' hlt)

/-- A tree that lies in the list has a span, between the places of its first and its last token. -/
theorem exists_span (h : Ordered tokens) (hlaid : Laid tokens e i j) :
    ∃ s, e.span = some s ∧ Place tokens i s.first ∧ Place tokens j s.last := by
  obtain ⟨_, t, u, ht, hu, hspan⟩ := hlaid.ends
  obtain ⟨l, hl⟩ := h.located t (List.mem_of_getElem? ht)
  obtain ⟨l', hl'⟩ := h.located u (List.mem_of_getElem? hu)
  rw [hl, hl'] at hspan
  exact ⟨⟨l, l'⟩, hspan, ⟨t, ht, hl⟩, u, hu, hl'⟩

/-- Trees that lie one after the other have spans one after the other. -/
theorem pairwise_before (h : Ordered tokens) (hlaid : LaidAll tokens es a b) :
    es.Pairwise fun x y => ∀ s s', x.span = some s → y.span = some s' → s.Before s' := by
  induction es generalizing a with
  | nil => exact .nil
  | cons x es ih =>
    cases hlaid with
    | cons before head tail =>
      refine .cons (fun y hy s s' hs hs' => ?_) (ih tail)
      obtain ⟨k, l, hk, _, hy⟩ := tail.of_mem hy
      obtain ⟨s₀, hspan, _, hlast⟩ := h.exists_span head
      obtain ⟨s₁, hspan', hfirst, _⟩ := h.exists_span hy
      obtain rfl := Option.some.inj (hspan.symm.trans hs)
      obtain rfl := Option.some.inj (hspan'.symm.trans hs')
      exact h.offset_lt hlast hfirst hk

end Ordered

end

end Parser

/-- A node has a span in the text of the given tokens, and its parts have theirs inside. -/
structure Expr.Spanned (tokens : List Token) (e : Expr) (s : Span) : Prop where
  span : e.span = some s
  forward : s.first.offset ≤ s.last.offset
  /-- A number, a variable, a call, a condition or a loop begins at the token that is its own first
  word, and ends at the last of the tokens that spell it. -/
  own : (∀ op left right span, e ≠ .binary op left right span) → ∃ i j t u,
    tokens[i]? = some t ∧ t.location = some s.first ∧ e.flat.head? = some t.content ∧
    tokens[j]? = some u ∧ u.location = some s.last ∧ Covers tokens e i j
  /-- The parts lie within. -/
  within : ∀ part ∈ e.children, ∃ s', part.span = some s' ∧ s'.Within s
  /-- The parts follow each other, each ending before the next begins. -/
  apart : e.children.Pairwise fun a b =>
    ∀ s s', a.span = some s → b.span = some s' → s.Before s'

/-- A tree that lies in an ordered list has a span that its parts nest in. -/
theorem Parser.Ordered.spanned {tokens : List Token} {e : Expr} {i j : Nat} (h : Ordered tokens)
    (hlaid : Laid tokens e i j) : ∃ s, e.Spanned tokens s := by
  obtain ⟨s, hspan, hfirst, hlast⟩ := h.exists_span hlaid
  refine ⟨s, hspan, h.offset_le hfirst hlast hlaid.ends.1, fun hother => ?_, fun part hpart => ?_,
    h.pairwise_before hlaid.children⟩
  · cases hlaid with
    | binary => exact absurd rfl (hother _ _ _ _)
    | primary first last le span own covers parts =>
      obtain ⟨t, ht, hl⟩ := hfirst
      obtain ⟨u, hu, hl'⟩ := hlast
      obtain rfl := Option.some.inj (first.symm.trans ht)
      exact ⟨i, j, _, u, ht, hl, own, hu, hl', covers⟩
  · obtain ⟨k, l, hk, hl, hpart⟩ := hlaid.children.of_mem hpart
    obtain ⟨s', hspan', hfirst', hlast'⟩ := h.exists_span hpart
    exact ⟨s', hspan', h.offset_le hfirst hfirst' hk,
      h.offset_le hlast' hlast (Nat.le_of_lt_succ hl)⟩

/-! ### The tokens of a text -/

namespace Lexer

open Segment

/-- The tokens of segments lie behind the text before them, each behind the one before it. -/
theorem Segment.Cut.ordered {rest : List Char} {segments : List Segment} (h : Cut rest segments)
    (filename : String) (before : List Char) :
    (∀ t ∈ tokens filename before segments, ∃ l, t.location = some l ∧ before.length ≤ l.offset) ∧
      Ordered (tokens filename before segments) := by
  induction h generalizing before with
  | nil => exact ⟨fun _ ht => absurd ht List.not_mem_nil, fun _ ht => absurd ht List.not_mem_nil, .nil⟩
  | @cons s more gap lexeme _ ih =>
    obtain ⟨hbehind, hordered⟩ := ih (before ++ (s.gap ++ s.lexeme))
    have hpos := lexeme.length_pos
    have hfirst : (Location.behind filename (before ++ s.gap)).offset =
        before.length + s.gap.length := List.length_append
    simp only [List.length_append] at hbehind
    refine ⟨fun t ht => ?_, fun t ht => ?_, .cons (fun t ht l l' hl hl' => ?_) hordered.forwards⟩
    · rcases List.mem_cons.mp ht with rfl | ht
      · exact ⟨_, rfl, by omega⟩
      · obtain ⟨l, hl, hle⟩ := hbehind t ht
        exact ⟨l, hl, by omega⟩
    · rcases List.mem_cons.mp ht with rfl | ht
      · exact ⟨_, rfl⟩
      · exact hordered.located t ht
    · obtain ⟨l₀, hl₀, hle⟩ := hbehind t ht
      obtain rfl := Option.some.inj hl
      obtain rfl := Option.some.inj (hl₀.symm.trans hl')
      omega

/-- The tokens of a text have places, and these go forwards. -/
theorem ordered_of_tokenize {source filename : String} {ts : List Token}
    (h : tokenize source filename = .ok ts) : Ordered ts := by
  obtain ⟨f, rest, hfits, hend⟩ := exists_fits source.toList
  rcases hend with rfl | hmistake
  · obtain rfl := Except.ok.inj ((hfits.tokenize filename).symm.trans h)
    exact (hfits.cut.ordered filename []).2
  · obtain ⟨e, he⟩ := hmistake (.behind filename f.text)
    cases (hfits.tokenize_mistake he).symm.trans h

end Lexer

/-- The trees of a program are those of its statements. -/
theorem Program.mem_trees_ofStatements {ss : List Statement} {e : Expr} :
    e ∈ (ofStatements ss).close.trees ↔ e ∈ ss.flatMap Statement.trees := by
  have hdefinitions : (ofStatements ss).close.definitions = ss.filterMap Statement.definition? :=
    definitions_ofStatements ss
  have hexpressions : (ofStatements ss).close.expressions = ss.filterMap Statement.expression? :=
    expressions_ofStatements ss
  rw [trees, hdefinitions, hexpressions]
  simp only [List.mem_append, List.mem_map, List.mem_filterMap, List.mem_flatMap]
  constructor
  · rintro (⟨d, ⟨s, hs, hd⟩, rfl⟩ | ⟨s, hs, he⟩)
    · cases s <;> cases hd
      exact ⟨_, hs, List.mem_singleton_self _⟩
    · cases s <;> cases he
      exact ⟨_, hs, List.mem_singleton_self _⟩
  · rintro ⟨s, hs, he⟩
    cases s with
    | foreign q => exact absurd he List.not_mem_nil
    | definition d =>
      obtain rfl := List.mem_singleton.mp he
      exact .inl ⟨d, ⟨_, hs, rfl⟩, rfl⟩
    | expression x =>
      obtain rfl := List.mem_singleton.mp he
      exact .inr ⟨_, hs, rfl⟩

/-- Spans nest. In a program that was read from a text, every node of every tree has a span, which does
not end before it begins; a number, a variable, a call, a condition or a loop begins at the token that
is its own first word; the spans of the parts of a node lie within its own; and they follow each
other in the order of the parts, each ending before the next begins. -/
theorem Program.spans_nest {source filename : String} {limit : Int} {p : Program}
    (h : ofSource source filename limit = .ok p) :
    ∃ tokens, Lexer.tokenize source filename = .ok tokens ∧
      ∀ e ∈ p.trees, ∀ node ∈ e.preorder, ∃ s, node.Spanned tokens s := by
  obtain ⟨tokens, htokens, hparse⟩ := ofSource_eq_ok_iff.mp h
  have hordered := Lexer.ordered_of_tokenize htokens
  obtain ⟨ss, after, rfl, hlays⟩ := parse_lays hordered.located hparse
  refine ⟨tokens, htokens, fun e he node hnode => ?_⟩
  obtain ⟨i, j, _, _, hlaid⟩ := hlays.laid.of_mem (mem_trees_ofStatements.mp he)
  obtain ⟨k, l, hnode⟩ := hlaid.node hnode
  exact hordered.spanned hnode

/-- Grouping parentheses belong to the span of a call around them, and to no other. -/
theorem Program.spans_nest_groups :
    ∃ p, ofSource "(a + (b)) * f((c));" = .ok p ∧
      (p.trees.flatMap Expr.preorder).map (fun e => e.span.map fun s => (s.first.offset, s.last.offset)) =
        [some (1, 17), some (1, 6), some (1, 1), some (6, 6), some (12, 17), some (15, 15)] ∧
      ∃ tokens, ∀ e ∈ p.trees, ∀ node ∈ e.preorder, ∃ s, node.Spanned tokens s := by
  have hread : ∃ p ∈ (ofSource "(a + (b)) * f((c));").toOption, (p.trees.flatMap Expr.preorder).map
      (fun e => e.span.map fun s => (s.first.offset, s.last.offset)) =
        [some (1, 17), some (1, 6), some (1, 1), some (6, 6), some (12, 17), some (15, 15)] := by
    decide +kernel
  obtain ⟨p, hread, hspans⟩ := exists_of_toOption hread
  obtain ⟨tokens, _, hnest⟩ := spans_nest hread
  exact ⟨p, hread, hspans, tokens, hnest⟩

end Formulary
