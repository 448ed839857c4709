import Formulary.Parser.OnStack
import Formulary.Proofs.Descent.Reading

/-!
# More room and a wider nesting limit

The same token list is read on two stacks within two nesting limits. The limit is looked at in three
places: on entering an expression, on opening a group, and when a node with parts has been built. In
each, what passes within the smaller limit passes within the larger, and what does not pass is refused
for its nesting at once. And a part for which there is room on the first stack has room on the second,
if that has more. So up to such a refusal, or up to the place where the first stack runs out, the two
runs are not merely alike but the same, with their values, mistakes and cursors, also on lists with
mistakes in them, whichever descent finds these.

A stack of which nothing is taken never runs out, so the comparison with it is a comparison with
reading without a stack.
-/

namespace Formulary.Parser

open Descent

/-- The second descent does what the first does, unless the first is cut short or stops for a mistake
that may be refused. -/
def Widened {α : Type} (Refused : SyntaxError → Prop) (p p' : Descent α) : Prop :=
  ∀ c, p c = .cutShort ∨ (∃ e after, p c = .failure e after ∧ Refused e) ∨ p' c = p c

/-- A nesting limit and one within which nothing else is refused but, if they are not the same, what
may be refused for its nesting. -/
structure Wider (Refused : SyntaxError → Prop) (limit limit' : Int) : Prop where
  le : limit ≤ limit'
  refused : limit = limit' ∨ ∀ e : SyntaxError, e.IsNesting → Refused e

namespace Widened

variable {α β : Type} {Refused : SyntaxError → Prop}

theorem refl (p : Descent α) : Widened Refused p p := fun _ => .inr (.inr rfl)

/-- Two sequences are the same up to the end of the first in either part. -/
theorem bind {p p' : Descent α} {f f' : α → Descent β} (hp : Widened Refused p p')
    (hf : ∀ a, Widened Refused (f a) (f' a)) : Widened Refused (p >>= f) (p' >>= f') := by
  intro c
  change Descent.bind p f c = .cutShort ∨
    (∃ e after, Descent.bind p f c = .failure e after ∧ Refused e) ∨
    Descent.bind p' f' c = Descent.bind p f c
  unfold Descent.bind
  rcases hp c with hcut | ⟨e, after, hfails, hrefused⟩ | hsame
  · rw [hcut]
    exact .inl rfl
  · rw [hfails]
    exact .inr (.inl ⟨e, after, rfl, hrefused⟩)
  · rw [hsame]
    cases p c with
    | success a after => exact hf a after
    | failure e after => exact .inr (.inr rfl)
    | cutShort => exact .inl rfl

theorem map {p p' : Descent α} (f : α → β) (hp : Widened Refused p p') :
    Widened Refused (f <$> p) (f <$> p') :=
  hp.bind fun a => refl (pure (f a))

theorem takeIf {choose : Token → Option α} {taken taken' : Token → α → Descent β}
    {otherwise otherwise' : Descent β} (htaken : ∀ t a, Widened Refused (taken t a) (taken' t a))
    (hother : Widened Refused otherwise otherwise') : Widened Refused
      (Descent.takeIf choose taken otherwise) (Descent.takeIf choose taken' otherwise') := by
  intro c
  unfold Descent.takeIf
  cases c.rest with
  | nil => exact hother c
  | cons t rest =>
    simp only
    cases choose t with
    | none => exact hother c
    | some a => exact htaken t a _

/-- A choice that the tokens decide. -/
theorem ite {condition : Prop} [Decidable condition] {p p' q q' : Descent α}
    (hp : Widened Refused p p') (hq : Widened Refused q q') :
    Widened Refused (if condition then p else q) (if condition then p' else q') := by
  split
  · exact hp
  · exact hq

/-- A part that takes its frames. -/
theorem within {frames frames' : Frames} (hframes : ∀ part, frames' part ≤ frames part) (part : Part)
    {p p' : Stack → Descent α}
    (h : ∀ stack higher : Stack, stack.room ≤ higher.room → Widened Refused (p stack) (p' higher))
    {stack higher : Stack} (hroom : stack.room ≤ higher.room) : Widened Refused
      (Parser.within frames part stack p) (Parser.within frames' part higher p') := by
  intro c
  unfold Parser.within
  cases hlow : stack.holding (frames part) with
  | none => exact .inl rfl
  | some deeper =>
    obtain ⟨deeper', hhigh, hdeeper⟩ := Stack.holding_of_room (hframes part) hroom hlow
    rw [hhigh]
    simp only
    have helper {part : Part} (hholds : (deeper.holding (frames part)).isSome = true) :
        (deeper'.holding (frames' part)).isSome = true := by
      obtain ⟨deepest, hdeepest⟩ := Option.isSome_iff_exists.mp hholds
      obtain ⟨_, hholds', _⟩ := Stack.holding_of_room (hframes part) hdeeper hdeepest
      rw [hholds']
      rfl
    have hinner := h deeper deeper' hdeeper c
    cases hp : p deeper c with
    | cutShort => exact .inl rfl
    | success a after =>
      rw [hp] at hinner
      have hsame : p' deeper' c = .success a after :=
        (hinner.resolve_left (fun h => nomatch h)).resolve_left fun ⟨_, _, h, _⟩ => nomatch h
      rw [hsame]
      by_cases hholds : (deeper.holding (frames .helper)).isSome = true
      · simp only [if_pos hholds, if_pos (helper hholds)]
        exact .inr (.inr trivial)
      · simp only [if_neg hholds]
        exact .inl trivial
    | failure e after =>
      simp only
      by_cases hholds : (deeper.holding (frames .mistake)).isSome = true
      · simp only [if_pos hholds]
        rcases hinner with hcut | ⟨e', after', hfails, hrefused⟩ | hsame
        · cases hp.symm.trans hcut
        · cases hp.symm.trans hfails
          exact .inr (.inl ⟨e, after, rfl, hrefused⟩)
        · rw [hp] at hsame
          rw [hsame]
          simp only [if_pos (helper hholds)]
          exact .inr (.inr trivial)
      · simp only [if_neg hholds]
        exact .inl trivial

/-- A choice that the nesting limit decides: what the larger limit refuses, the smaller refuses too,
and where only the smaller does the runs may part. -/
theorem guard {condition condition' : Prop} [Decidable condition] [Decidable condition']
    {p p' q q' : Descent α} (himp : condition' → condition)
    (hp : ∀ c, ∃ e after, p c = .failure e after ∧ Refused e) (hq : Widened Refused q q') :
    Widened Refused (if condition then p else q) (if condition' then p' else q') := by
  intro c
  by_cases h : condition
  · rw [if_pos h]
    exact .inr (.inl (hp c))
  · rw [if_neg h, if_neg (mt himp h)]
    exact hq c

section

variable {limit limit' : Int} (hwider : Wider Refused limit limit')

include hwider

theorem checked (blame : Token) (m : Measured) :
    Widened Refused (Parser.checked limit blame m) (Parser.checked limit' blame m) := by
  rcases hwider.refused with rfl | hrefused
  · exact refl _
  · exact guard (Int.lt_of_le_of_lt hwider.le) (fun c => ⟨_, c, rfl, hrefused _ ⟨limit, rfl⟩⟩)
      (refl _)

variable {e e' : Descent Measured}

theorem conditional (h : Widened Refused e e') (first : Token) :
    Widened Refused (Parser.conditional limit e first) (Parser.conditional limit' e' first) :=
  h.bind fun _ => (refl _).bind fun _ => h.bind fun _ => (refl _).bind fun _ => h.bind fun _ =>
    (refl _).bind fun _ => checked hwider _ _

theorem forLoop (h : Widened Refused e e') (first : Token) :
    Widened Refused (Parser.forLoop limit e first) (Parser.forLoop limit' e' first) :=
  (refl _).bind fun _ => (refl _).bind fun _ => h.bind fun _ => (refl _).bind fun _ =>
    h.bind fun _ => (takeIf (fun _ _ => h.map some) (refl _)).bind fun _ => (refl _).bind fun _ =>
    h.bind fun _ => (refl _).bind fun _ => checked hwider _ _

theorem variableOrCall {arguments arguments' : Descent (List Measured)}
    (h : Widened Refused arguments arguments') (first : Token) (name : String) :
    Widened Refused (Parser.variableOrCall limit arguments first name)
      (Parser.variableOrCall limit' arguments' first name) :=
  takeIf
    (fun _ _ => ((refl _).bind fun _ => ite (refl _) h).bind fun _ => (refl _).bind fun _ =>
      (refl _).bind fun _ => checked hwider _ _)
    (refl _)

theorem grouping {chain chain' : Nesting → Descent Measured} {expressions groups : Nat}
    (h : Widened Refused (chain ⟨limit, expressions, groups + 1⟩)
      (chain' ⟨limit', expressions, groups + 1⟩)) (first : Token) :
    Widened Refused (Parser.grouping ⟨limit, expressions, groups⟩ chain first)
      (Parser.grouping ⟨limit', expressions, groups⟩ chain' first) := by
  rcases hwider.refused with rfl | hrefused
  · exact ite (refl _) (h.bind fun _ => refl _)
  · exact guard (Int.le_trans hwider.le) (fun c => ⟨_, c, rfl, hrefused _ ⟨limit, rfl⟩⟩)
      (h.bind fun _ => refl _)

end

end Widened

/-- With some fuel, and the same expressions and groups open, all descents into expressions are the
same on two stacks within two limits up to the end of the first. -/
structure WidenedWithin (Refused : SyntaxError → Prop) (frames frames' : Frames) (limit limit' : Int)
    (fuel : Nat) (stack higher : Stack) : Prop where
  expression : ∀ expressions groups, Widened Refused
    (expressionOn frames fuel stack ⟨limit, expressions, groups⟩)
    (expressionOn frames' fuel higher ⟨limit', expressions, groups⟩)
  chain : ∀ expressions groups, Widened Refused
    (chainOn frames fuel stack ⟨limit, expressions, groups⟩)
    (chainOn frames' fuel higher ⟨limit', expressions, groups⟩)
  primary : ∀ expressions groups, Widened Refused
    (primaryOn frames fuel stack ⟨limit, expressions, groups⟩)
    (primaryOn frames' fuel higher ⟨limit', expressions, groups⟩)
  operations : ∀ expressions groups least left, Widened Refused
    (operationsOn frames fuel stack ⟨limit, expressions, groups⟩ least left)
    (operationsOn frames' fuel higher ⟨limit', expressions, groups⟩ least left)
  arguments : ∀ expressions groups, Widened Refused
    (argumentsOn frames fuel stack ⟨limit, expressions, groups⟩)
    (argumentsOn frames' fuel higher ⟨limit', expressions, groups⟩)

section

variable {Refused : SyntaxError → Prop} {frames frames' : Frames} {limit limit' : Int}
  (hframes : ∀ part, frames' part ≤ frames part) (hwider : Wider Refused limit limit')

include hframes hwider

/-- So they are whatever the fuel, if the second stack has as much room as the first. -/
theorem widened_within (fuel : Nat) (stack higher : Stack) (hroom : stack.room ≤ higher.room) :
    WidenedWithin Refused frames frames' limit limit' fuel stack higher := by
  induction fuel generalizing stack higher with
  | zero =>
    exact ⟨fun _ _ => .refl _, fun _ _ => .refl _, fun _ _ => .refl _, fun _ _ _ _ => .refl _,
      fun _ _ => .refl _⟩
  | succ fuel ih =>
    constructor
    · intro expressions groups
      refine .within hframes _ (fun stack higher hroom => ?_) hroom
      have hchain := (ih stack higher hroom).chain (expressions + 1) groups
      rcases hwider.refused with rfl | hrefused
      · exact .ite (.refl _) hchain
      · exact .guard (Int.le_trans hwider.le) (fun c => ⟨_, c, rfl, hrefused _ ⟨limit, rfl⟩⟩) hchain
    · intro expressions groups
      refine .within hframes _ (fun stack higher hroom => ?_) hroom
      refine ((ih stack higher hroom).primary _ _).bind fun left => ?_
      refine .within hframes _ (fun stack higher hroom => ?_) hroom
      exact (ih stack higher hroom).operations _ _ 0 left
    · intro expressions groups
      refine .within hframes _ (fun stack higher hroom => ?_) hroom
      apply (Widened.refl _).bind
      rintro ⟨first, opening⟩
      refine .within hframes _ (fun stack higher hroom => ?_) hroom
      have hparts := ih stack higher hroom
      cases opening with
      | number value => exact .refl _
      | identifier name => exact .variableOrCall hwider (hparts.arguments _ _) first name
      | group => exact .grouping hwider (hparts.chain _ _) first
      | conditional => exact .conditional hwider (hparts.expression _ _) first
      | loop => exact .forLoop hwider (hparts.expression _ _) first
    · intro expressions groups least left
      have hparts := ih stack higher hroom
      have htighter (op : Operator) (right : Measured) : Widened Refused
          (within frames .operations stack fun stack =>
            operationsOn frames fuel stack ⟨limit, expressions, groups⟩ (op.precedence + 1) right)
          (within frames' .operations higher fun higher =>
            operationsOn frames' fuel higher ⟨limit', expressions, groups⟩ (op.precedence + 1)
              right) :=
        .within hframes _ (fun stack higher hroom => (ih stack higher hroom).operations _ _ _ _) hroom
      refine .takeIf (fun token op => ?_) (.refl _)
      exact (hparts.primary _ _).bind fun right =>
        ((Widened.refl _).bind fun _ => .ite (htighter op right) (.refl _)).bind fun right =>
        (Widened.checked hwider _ _).bind fun node => hparts.operations _ _ _ _
    · intro expressions groups
      have hparts := ih stack higher hroom
      exact (hparts.expression _ _).bind fun value => (Widened.refl _).bind fun next =>
        .ite (.refl _) ((Widened.refl _).bind fun _ => (hparts.arguments _ _).bind fun _ => .refl _)

namespace Widened

variable (fuel : Nat) {stack higher : Stack} (hroom : stack.room ≤ higher.room)

include hroom

omit hwider in
theorem foreignOn : Widened Refused (Parser.foreignOn frames fuel stack)
    (Parser.foreignOn frames' fuel higher) := by
  refine .within hframes _ (fun stack higher hroom => ?_) hroom
  apply (refl _).bind
  intro _
  exact (within hframes _ (fun _ _ _ => refl _) hroom).bind fun _ => refl _

theorem definitionOn : Widened Refused (Parser.definitionOn frames fuel stack limit)
    (Parser.definitionOn frames' fuel higher limit') := by
  refine .within hframes _ (fun stack higher hroom => ?_) hroom
  apply (refl _).bind
  intro _
  apply (within hframes _ (fun _ _ _ => refl _) hroom).bind
  intro _
  exact ((widened_within hframes hwider fuel stack higher hroom).expression 0 0).bind fun _ => refl _

theorem statementOn : Widened Refused (Parser.statementOn frames fuel stack limit)
    (Parser.statementOn frames' fuel higher limit') := by
  refine .within hframes _ (fun stack higher hroom => ?_) hroom
  have formula := ((widened_within hframes hwider fuel stack higher hroom).expression 0 0).bind
    fun m : Measured => refl (do
      let _ ← Descent.expect (.punctuation .semicolon) "after top-level expression"
      return some (Statement.expression m.expr))
  apply (refl _).bind
  intro next
  cases next.kind with
  | keyword w =>
    cases w with
    | externWord => exact (foreignOn hframes fuel hroom).bind fun _ => refl _
    | defWord => exact (definitionOn hframes hwider fuel hroom).bind fun _ => refl _
    | _ => exact formula
  | punctuation m =>
    cases m with
    | semicolon => exact refl _
    | _ => exact formula
  | _ => exact formula

end Widened

/-- Statements are read in the same way on the second stack, unless the first runs out or the first
limit refuses one. -/
theorem statementsFromOn_widened {stack higher : Stack} (hroom : stack.room ≤ higher.room)
    (steps : Nat) (before : List Statement) (c : Cursor) :
    let low := statementsFromOn frames stack limit steps before c
    low.halt = some (.stack .exhausted) ∨
      (∃ e, low.halt = some (.mistake e) ∧ Refused e) ∨
      statementsFromOn frames' higher limit' steps before c = low := by
  induction steps generalizing before c with
  | zero => exact .inr (.inr rfl)
  | succ steps ih =>
    unfold statementsFromOn
    split
    · exact .inr (.inr rfl)
    · rcases Widened.statementOn hframes hwider (4 * c.rest.length + 3) hroom c with
        hcut | ⟨e, after, hfails, hrefused⟩ | hsame
      · rw [hcut]
        exact .inl rfl
      · rw [hfails]
        exact .inr (.inl ⟨e, rfl, hrefused⟩)
      · rw [hsame]
        cases statementOn frames (4 * c.rest.length + 3) stack limit c with
        | success s after => exact ih _ after
        | failure e after => exact .inr (.inr rfl)
        | cutShort => exact .inr (.inr rfl)

end

/-! ### Headroom -/

/-- The headroom for a nesting limit is granted. -/
def Grants (frames : Frames) (stack : Stack) (limit : Int) : Prop :=
  ∃ deeper higher, stack.holding (frames .use) = some deeper ∧
    deeper.raised (headroom limit) = .ok higher

section

variable {frames : Frames} {stack : Stack} {limit limit' : Int} (tokens : List Token)

/-- Without the headroom the stack stops the parser at once. -/
theorem readOn_refused (h : ¬ Grants frames stack limit) :
    ∃ e, (readOn frames stack tokens limit).halt = some (.stack e) := by
  unfold readOn
  cases hdeeper : stack.holding (frames .use) with
  | none => exact ⟨_, rfl⟩
  | some deeper =>
    simp only
    cases hhigher : deeper.raised (headroom limit) with
    | error e => exact ⟨e, rfl⟩
    | ok higher => exact absurd ⟨deeper, higher, hdeeper, hhigher⟩ h

/-- With it the parser reads on the raised stack. -/
theorem readOn_granted {deeper higher : Stack} (hdeeper : stack.holding (frames .use) = some deeper)
    (hhigher : deeper.raised (headroom limit) = .ok higher) : readOn frames stack tokens limit =
      statementsFromOn frames higher limit (tokens.length + 1) [] (.start tokens) := by
  rw [readOn, hdeeper]
  simp only [hhigher]

/-- Where the headroom for a limit is granted, the headroom for a wider one is granted too, and leaves
more room, or it is out of range. -/
theorem Grants.wider {deeper higher : Stack} (hhigher : deeper.raised (headroom limit) = .ok higher)
    (hle : limit ≤ limit') :
    (∃ higher', deeper.raised (headroom limit') = .ok higher' ∧ higher.room ≤ higher'.room) ∨
      deeper.raised (headroom limit') = .error .outOfRange := by
  obtain ⟨_, hused, hlimit, hused'⟩ := Stack.raised_eq_ok_iff.mp hhigher
  have hheadroom : headroom limit ≤ headroom limit' := by
    unfold headroom framesPerLevel
    omega
  by_cases hrange : deeper.limit + headroom limit' ≤ 2147483647
  · left
    refine ⟨⟨deeper.limit + headroom limit', deeper.used, by omega⟩,
      Stack.raised_eq_ok_iff.mpr ⟨hrange, by omega, rfl, rfl⟩, ?_⟩
    unfold Stack.room
    simp only [hlimit, hused']
    omega
  · exact .inr (Stack.raised_eq_outOfRange (Int.not_le.mp hrange))

end

section

variable (frames : Frames) (stack : Stack) (tokens : List Token) {limit limit' : Int}
  (hle : limit ≤ limit')

include hle

/-- A list is read in the same way within a wider limit, unless the stack or the first limit stops the
parser, or the headroom for the wider limit is out of range. -/
theorem readOn_widened :
    let low := readOn frames stack tokens limit
    (∃ e, low.halt = some (.stack e)) ∨ (∃ e, low.halt = some (.mistake e) ∧ e.IsNesting) ∨
      readOn frames stack tokens limit' = low ∨
      (readOn frames stack tokens limit').halt = some (.stack .outOfRange) := by
  intro low
  by_cases granted : Grants frames stack limit
  · obtain ⟨deeper, higher, hdeeper, hhigher⟩ := granted
    have hlow : low = _ := readOn_granted tokens hdeeper hhigher
    rcases Grants.wider hhigher hle with ⟨higher', hhigher', hroom⟩ | hrange
    · have hwider : Wider SyntaxError.IsNesting limit limit' := ⟨hle, .inr fun _ h => h⟩
      rw [readOn_granted tokens hdeeper hhigher', hlow]
      rcases statementsFromOn_widened (fun _ => Nat.le_refl _) hwider hroom (tokens.length + 1) []
        (.start tokens) with hcut | hrefused | hsame
      · exact .inl ⟨_, hcut⟩
      · exact .inr (.inl hrefused)
      · exact .inr (.inr (.inl hsame))
    · refine .inr (.inr (.inr ?_))
      rw [readOn, hdeeper]
      simp only [hrange]
  · exact .inl (readOn_refused tokens granted)

/-- A wider nesting limit changes no diagnosis, as long as the stack serves. A list that is refused
within some limit, but not for its nesting and not by the stack, is refused within every larger limit
for the same mistake, at the same token and at the same place of the list. A list that is read within
some limit is read within every larger one as the same program. In both cases there is one exception,
that the headroom for the larger limit is out of range. The stack does not run out then: within the
larger limit there is more room, and no more is needed. So where two limits differ in what they make of
a list, the smaller refuses it for its nesting, or the stack stops one of the two. -/
theorem wider_limit_keeps_diagnosis_on_stack :
    (∀ e, parseOn frames stack tokens limit = .error (.mistake e) → ¬ e.IsNesting →
      parseOn frames stack tokens limit' = .error (.mistake e) ∧
          e.index (readOn frames stack tokens limit').cursor =
            e.index (readOn frames stack tokens limit).cursor ∨
        parseOn frames stack tokens limit' = .error (.stack .outOfRange)) ∧
    (∀ p, parseOn frames stack tokens limit = .ok p →
      parseOn frames stack tokens limit' = .ok p ∨
        parseOn frames stack tokens limit' = .error (.stack .outOfRange)) ∧
    (parseOn frames stack tokens limit' ≠ parseOn frames stack tokens limit →
      (∃ e, parseOn frames stack tokens limit = .error (.mistake e) ∧ e.IsNesting) ∨
      (∃ e, parseOn frames stack tokens limit = .error (.stack e)) ∨
      parseOn frames stack tokens limit' = .error (.stack .outOfRange)) := by
  have hprogram {r : ReadingOn} {halt : Halt} (h : r.halt = some halt) :
      r.program = .error halt := by
    rw [ReadingOn.program, h]
  have hwidened := readOn_widened frames stack tokens hle
  refine ⟨?_, ?_, ?_⟩
  · intro e he hother
    rcases hwidened with ⟨why, hstack⟩ | ⟨e', hrefused, hnesting⟩ | hsame | hrange
    · cases he.symm.trans (hprogram hstack)
    · cases he.symm.trans (hprogram hrefused)
      exact absurd hnesting hother
    · refine .inl ⟨(congrArg ReadingOn.program hsame).trans he, ?_⟩
      rw [hsame]
    · exact .inr (hprogram hrange)
  · intro p hp
    rcases hwidened with ⟨why, hstack⟩ | ⟨e', hrefused, _⟩ | hsame | hrange
    · cases hp.symm.trans (hprogram hstack)
    · cases hp.symm.trans (hprogram hrefused)
    · exact .inl ((congrArg ReadingOn.program hsame).trans hp)
    · exact .inr (hprogram hrange)
  · intro hne
    rcases hwidened with ⟨why, hstack⟩ | ⟨e', hrefused, hnesting⟩ | hsame | hrange
    · exact .inr (.inl ⟨why, hprogram hstack⟩)
    · exact .inl ⟨e', hprogram hrefused, hnesting⟩
    · exact absurd (congrArg ReadingOn.program hsame) hne
    · exact .inr (.inr (hprogram hrange))

end

/-- In `(x;` the parenthesis is missing within the limits 1 and 3 alike. `((x));` is read within 2 and
within 3 alike, and within 1 its second group is refused. -/
theorem wider_limit_keeps_unclosed :
    let unclosed := [Token.ofContent (mark .leftParen), Token.ofContent (.identifier "x"),
      Token.ofContent (mark .semicolon)]
    let groups := ([mark .leftParen, mark .leftParen, .identifier "x", mark .rightParen,
      mark .rightParen, mark .semicolon] : List TokenContent).map Token.ofContent
    (1 : Int) ≤ 3 ∧ (2 : Int) ≤ 3 ∧
    (∃ e, parseOn .usual .usual unclosed 1 = .error (.mistake e) ∧ ¬ e.IsNesting ∧
      parseOn .usual .usual unclosed 3 = .error (.mistake e)) ∧
    (∃ p, parseOn .usual .usual groups 2 = .ok p ∧ parseOn .usual .usual groups 3 = .ok p) ∧
    ∃ e, parseOn .usual .usual groups 1 = .error (.mistake e) ∧ e.IsNesting := by
  intro unclosed groups
  have herror : parseOn .usual .usual unclosed 1 = .error (.mistake
      ⟨.expected (.kind (.punctuation .rightParen)) "after parenthesized expression",
        Token.ofContent (mark .semicolon)⟩) := rfl
  obtain ⟨p, hp⟩ : ∃ p, parseOn .usual .usual groups 2 = .ok p := ⟨_, rfl⟩
  have hother : ¬ SyntaxError.IsNesting ⟨.expected (.kind (.punctuation .rightParen))
      "after parenthesized expression", Token.ofContent (mark .semicolon)⟩ := by
    rintro ⟨limit, h⟩
    contradiction
  have hunclosed := (wider_limit_keeps_diagnosis_on_stack .usual .usual unclosed
    (by decide : (1 : Int) ≤ 3)).1 _ herror hother
  have hgroups := (wider_limit_keeps_diagnosis_on_stack .usual .usual groups
    (by decide : (2 : Int) ≤ 3)).2.1 p hp
  refine ⟨by decide, by decide, ⟨_, herror, hother, ?_⟩, ⟨p, hp, ?_⟩, ?_⟩
  · exact (hunclosed.resolve_right fun h => nomatch h).1
  · exact hgroups.resolve_right fun h => nomatch h
  · exact ⟨_, rfl, 1, rfl⟩

/-- The same list is read within the limit 128 and refused by the stack within a thousand million. -/
theorem great_limit_is_refused :
    let tokens := [Token.ofContent (.identifier "x"), Token.ofContent (mark .semicolon)]
    (∃ p, parseOn .usual .usual tokens 128 = .ok p) ∧
      parseOn .usual .usual tokens 1000000000 = .error (.stack .outOfRange) :=
  ⟨⟨_, rfl⟩, rfl⟩

end Formulary.Parser
