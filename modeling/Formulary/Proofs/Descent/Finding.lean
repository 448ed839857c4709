import Formulary.Proofs.Descent.Reading
import Formulary.Proofs.Grammar.Settled

/-!
# What descents find

Where the tokens ahead spell a settled phrase, and what stands behind it cannot go on with it, a
descent takes just the phrase and makes its tree, provided the nesting limit is wide enough for it.
Here is that statement for each kind of descent, and its proof for one step of each. Chains of
operators are the hard kind: a descent takes those that bind tightly enough and leaves the rest.
-/

namespace Formulary.Parser

open Descent

/-- The contents of the tokens after a cursor. -/
def Cursor.ahead (c : Cursor) : List TokenContent := c.rest.map Token.content

/-- What may stand behind a primary expression: no parenthesis that would make a call of a name, and
behind an open one no operator. -/
def Stops (isOpen : Bool) (words : List TokenContent) : Prop :=
  words.head? ≠ some (mark .leftParen) ∧
    (isOpen = true → ∀ op, words.head? ≠ some (.operator op))

/-- The nesting limit is wide enough for an expression. -/
structure Phrase.Fits (p : Phrase) (n : Nesting) : Prop where
  settled : p.Settled
  height : ((n.expressions + p.expr.height : Nat) : Int) ≤ n.limit
  groups : ((n.groups + p.groups : Nat) : Int) ≤ n.limit

/-- The nesting limit is wide enough for a primary expression of an expression that is open. -/
structure Primary.Fits (p : Primary) (n : Nesting) : Prop where
  settled : p.Settled
  inside : 1 ≤ n.expressions
  height : ((n.expressions + p.expr.height : Nat) : Int) ≤ n.limit + 1
  groups : ((n.groups + p.groups : Nat) : Int) ≤ n.limit

/-- The nesting limit is wide enough for arguments. -/
structure Arguments.Fits (a : Arguments) (n : Nesting) : Prop where
  settled : a.Settled
  height : ((n.expressions + Expr.heights a.exprs : Nat) : Int) ≤ n.limit
  groups : ((n.groups + a.groups : Nat) : Int) ≤ n.limit

/-- A descent takes the expression that is ahead. -/
def FindsPhrases (n : Nesting) (e : Descent Measured) : Prop :=
  ∀ (p : Phrase) words c, p.Fits n → Stops true words → c.ahead = p.spell true ++ words →
    (e c).Ends (fun m after => m.expr.bare = p.expr ∧ after.ahead = words) fun _ _ => False

/-- A descent takes the arguments that are ahead. -/
def FindsArguments (n : Nesting) (arguments : Descent (List Measured)) : Prop :=
  ∀ (a : Arguments) words c, a.Fits n → c.ahead = a.spell true ++ mark .rightParen :: words →
    (arguments c).Ends
      (fun ms after => Expr.bares (ms.map Measured.expr) = a.exprs ∧
        after.ahead = mark .rightParen :: words) fun _ _ => False

/-! ### Rules for the tokens ahead -/

section

variable {α : Type} {good : α → Cursor → Prop} {bad : SyntaxError → Cursor → Prop} {c : Cursor}
  {words : List TokenContent}

/-- The first token ahead. -/
theorem Cursor.rest_of_ahead {w : TokenContent} (h : c.ahead = w :: words) :
    ∃ t rest, c.rest = t :: rest ∧ t.content = w ∧ (c.pass t rest).ahead = words := by
  obtain ⟨t, rest, hrest, ht, hwords⟩ := List.map_eq_cons_iff.mp h
  exact ⟨t, rest, hrest, ht, hwords⟩

/-- The content of the token at the cursor. -/
theorem Cursor.content_current (c : Cursor) :
    c.current.content = c.ahead.head?.getD .endOfInput := by
  unfold Cursor.current Cursor.ahead
  cases c.rest <;> rfl

/-- Taking a token that is there. -/
theorem finds_take {good : Token × α → Cursor → Prop} {choose : Token → Option α}
    {cause : SyntaxCause} {w : TokenContent} {a : α} (h : c.ahead = w :: words)
    (hchoose : ∀ t : Token, t.content = w → choose t = some a)
    (hgood : ∀ t after, after.ahead = words → good (t, a) after) :
    (take choose cause c).Ends good bad := by
  obtain ⟨t, rest, hrest, ht, hwords⟩ := c.rest_of_ahead h
  unfold take
  rw [hrest]
  simp only [hchoose t ht]
  exact hgood t _ hwords

/-- Taking a token that is there, where one need not be. -/
theorem finds_takeIf {choose : Token → Option α} {β : Type} {good : β → Cursor → Prop}
    {taken : Token → α → Descent β} {otherwise : Descent β} {w : TokenContent} {a : α}
    (h : c.ahead = w :: words) (hchoose : ∀ t : Token, t.content = w → choose t = some a)
    (htaken : ∀ t after, after.ahead = words → (taken t a after).Ends good bad) :
    (takeIf choose taken otherwise c).Ends good bad := by
  obtain ⟨t, rest, hrest, ht, hwords⟩ := c.rest_of_ahead h
  unfold takeIf
  rw [hrest]
  simp only [hchoose t ht]
  exact htaken t _ hwords

/-- Going on without a token, where there is none to take. -/
theorem finds_otherwise {choose : Token → Option α} {β : Type} {good : β → Cursor → Prop}
    {taken : Token → α → Descent β} {otherwise : Descent β}
    (hchoose : ∀ t : Token, c.ahead.head? = some t.content → choose t = none)
    (hother : (otherwise c).Ends good bad) : (takeIf choose taken otherwise c).Ends good bad := by
  unfold takeIf
  cases hrest : c.rest with
  | nil => exact hother
  | cons t rest =>
    have ht : choose t = none := hchoose t (by simp [Cursor.ahead, hrest])
    simp only [ht]
    exact hother

/-- Choosing a token by its kind. -/
theorem ofKind_eq_some {t : Token} {k : TokenKind} (h : t.kind = k) : ofKind k t = some () :=
  if_pos h

/-- Taking a token of the kind that is there. -/
theorem finds_expect {good : Token → Cursor → Prop} {k : TokenKind} {context : Option String}
    {w : TokenContent} (h : c.ahead = w :: words) (hk : w.kind = k)
    (hgood : ∀ t after, after.ahead = words → good t after) :
    (expect k context c).Ends good bad :=
  (ends_bind _ _).mpr <| finds_take h (fun t ht => ofKind_eq_some (by rw [Token.kind, ht, hk]))
    hgood

/-- Taking a name that is there. -/
theorem finds_name {good : Token × String → Cursor → Prop} {context name : String}
    (h : c.ahead = .identifier name :: words)
    (hgood : ∀ t after, after.ahead = words → good (t, name) after) :
    (Parser.name context c).Ends good bad :=
  finds_take h (fun t ht => by rw [name?, ht]) hgood

/-- A node that is not too high is accepted. -/
theorem finds_checked {good : Measured → Cursor → Prop} {limit : Int} {blame : Token} {m : Measured}
    (hheight : (m.expr.bare.height : Int) ≤ limit) (hgood : good m c) :
    (checked limit blame m c).Ends good bad := by
  rw [Expr.height_bare, m.height_eq] at hheight
  unfold checked
  rw [if_neg (by omega)]
  exact hgood

/-- Taking the expression that is ahead. -/
theorem finds_part {good : Measured → Cursor → Prop} {n : Nesting} {e : Descent Measured}
    (he : FindsPhrases n e) {p : Phrase} (hp : p.Fits n) (hstops : Stops true words)
    (h : c.ahead = p.spell true ++ words)
    (hgood : ∀ m after, m.expr.bare = p.expr → after.ahead = words → good m after) :
    (e c).Ends good bad :=
  (he p words c hp hstops h).mono (fun m after ⟨hm, hafter⟩ => hgood m after hm hafter)
    fun _ _ h => h.elim

end

/-- No mark but an opening parenthesis goes on with an expression. -/
theorem stops_mark {m : Punctuation} (hm : m ≠ .leftParen) (words : List TokenContent) :
    Stops true (mark m :: words) :=
  ⟨by simpa using hm, fun _ op => by simp⟩

/-- No reserved word goes on with an expression. -/
theorem stops_word (w : Keyword) (words : List TokenContent) : Stops true (word w :: words) :=
  ⟨by simp, fun _ op => by simp⟩

/-- What may stand behind any expression may stand behind a closed one. -/
theorem Stops.of_true {words : List TokenContent} (h : Stops true words) (isOpen : Bool) :
    Stops isOpen words :=
  ⟨h.1, fun _ => h.2 rfl⟩

/-- What may stand behind an operand of a chain. -/
theorem Stops.tail {words : List TokenContent} (h : Stops true words) {t : Tail} {isOpen : Bool}
    (ht : t = [] ∨ isOpen = false) : Stops isOpen (t.spell true ++ words) := by
  cases t with
  | nil => exact h.of_true isOpen
  | cons link rest =>
    obtain rfl := ht.resolve_left (List.cons_ne_nil _ _)
    exact ⟨by simp [Tail.spell], fun hopen => by contradiction⟩

/-! ### Primary expressions -/

section

variable {n : Nesting} {e : Descent Measured} {first : Token} {c : Cursor}
  {words : List TokenContent}

/-- A primary expression is made of what is ahead. -/
def FindsPrimary (p : Primary) (words : List TokenContent) (o : Outcome Measured) : Prop :=
  o.Ends (fun m after => m.expr.bare = p.expr ∧ after.ahead = words) fun _ _ => False

/-- The node of a primary expression that fits is accepted. -/
theorem finds_node {p : Primary} {blame : Token} {m : Measured} (hfits : p.Fits n)
    (hbare : m.expr.bare = p.expr) (h : c.ahead = words) :
    FindsPrimary p words (checked n.limit blame m c) := by
  have hinside := hfits.inside
  have hheight := hfits.height
  refine finds_checked ?_ ⟨hbare, h⟩
  rw [hbare]
  omega

/-- A condition is found. -/
theorem conditional_finds (he : FindsPhrases n e) {p₁ p₂ p₃ : Phrase}
    (hfits : (Primary.cond p₁ p₂ p₃).Fits n) (hstops : Stops true words)
    (h : c.ahead = p₁.spell true ++ word .thenWord :: (p₂.spell true ++
      word .elseWord :: (p₃.spell true ++ words))) :
    FindsPrimary (.cond p₁ p₂ p₃) words (conditional n.limit e first c) := by
  have ⟨⟨hs₁, hs₂, hs₃⟩, hinside, hheight, hgroups⟩ := hfits
  simp only [Primary.expr_cond, Expr.height, Primary.groups] at hheight hgroups
  simp only [FindsPrimary, conditional, ends_bind, ends_spanFrom]
  apply finds_part he ⟨hs₁, by omega, by omega⟩ (stops_word _ _) h
  intro m₁ _ hm₁ h
  apply finds_expect h rfl
  intro _ _ h
  apply finds_part he ⟨hs₂, by omega, by omega⟩ (stops_word _ _) h
  intro m₂ _ hm₂ h
  apply finds_expect h rfl
  intro _ _ h
  apply finds_part he ⟨hs₃, by omega, by omega⟩ hstops h
  intro m₃ _ hm₃ h
  exact finds_node hfits (by simp [Measured.cond, Expr.bare, hm₁, hm₂, hm₃]) h

/-- A loop without a step is found. -/
theorem forLoop_finds (he : FindsPhrases n e) {counter : String} {p₁ p₂ p₃ : Phrase}
    (hfits : (Primary.loop counter p₁ p₂ p₃).Fits n) (hstops : Stops true words)
    (h : c.ahead = .identifier counter :: .operator .equals :: (p₁.spell true ++
      mark .comma :: (p₂.spell true ++ word .inWord :: (p₃.spell true ++ words)))) :
    FindsPrimary (.loop counter p₁ p₂ p₃) words (forLoop n.limit e first c) := by
  have ⟨⟨hs₁, hs₂, hs₃⟩, hinside, hheight, hgroups⟩ := hfits
  simp only [Primary.expr_loop, Expr.height, Primary.groups] at hheight hgroups
  simp only [FindsPrimary, forLoop, ends_bind, ends_spanFrom]
  apply finds_name h
  intro _ _ h
  refine finds_take h (a := ()) (fun t ht => by simp [ofOperator, Token.operator?, ht])
    fun _ _ h => ?_
  apply finds_part he ⟨hs₁, by omega, by omega⟩ (stops_mark (by simp) _) h
  intro m₁ _ hm₁ h
  apply finds_expect h rfl
  intro _ _ h
  apply finds_part he ⟨hs₂, by omega, by omega⟩ (stops_word _ _) h
  intro m₂ _ hm₂ h
  refine finds_otherwise (fun t ht => ?_) ?_
  · rw [h] at ht
    rw [ofKind, Token.kind, ← Option.some.inj ht]
    rfl
  rw [ends_pure]
  apply finds_expect h rfl
  intro _ _ h
  apply finds_part he ⟨hs₃, by omega, by omega⟩ hstops h
  intro m₃ _ hm₃ h
  exact finds_node hfits (by simp [Measured.loop, Expr.bare, hm₁, hm₂, hm₃]) h

/-- A loop with a step is found. -/
theorem steppedLoop_finds (he : FindsPhrases n e) {counter : String} {p₁ p₂ p₃ p₄ : Phrase}
    (hfits : (Primary.steppedLoop counter p₁ p₂ p₃ p₄).Fits n) (hstops : Stops true words)
    (h : c.ahead = .identifier counter :: .operator .equals :: (p₁.spell true ++
      mark .comma :: (p₂.spell true ++ mark .comma :: (p₃.spell true ++
        word .inWord :: (p₄.spell true ++ words))))) :
    FindsPrimary (.steppedLoop counter p₁ p₂ p₃ p₄) words (forLoop n.limit e first c) := by
  have ⟨⟨hs₁, hs₂, hs₃, hs₄⟩, hinside, hheight, hgroups⟩ := hfits
  simp only [Primary.expr_steppedLoop, Expr.height, Primary.groups] at hheight hgroups
  simp only [FindsPrimary, forLoop, ends_bind, ends_spanFrom]
  apply finds_name h
  intro _ _ h
  refine finds_take h (a := ()) (fun t ht => by simp [ofOperator, Token.operator?, ht])
    fun _ _ h => ?_
  apply finds_part he ⟨hs₁, by omega, by omega⟩ (stops_mark (by simp) _) h
  intro m₁ _ hm₁ h
  apply finds_expect h rfl
  intro _ _ h
  apply finds_part he ⟨hs₂, by omega, by omega⟩ (stops_mark (by simp) _) h
  intro m₂ _ hm₂ h
  apply finds_takeIf h (fun t ht => ofKind_eq_some (by rw [Token.kind, ht]; rfl))
  intro _ _ h
  rw [ends_map]
  apply finds_part he ⟨hs₃, by omega, by omega⟩ (stops_word _ _) h
  intro m₃ _ hm₃ h
  apply finds_expect h rfl
  intro _ _ h
  apply finds_part he ⟨hs₄, by omega, by omega⟩ hstops h
  intro m₄ _ hm₄ h
  exact finds_node hfits (by simp [Measured.loop, Expr.bare, hm₁, hm₂, hm₃, hm₄]) h

/-- A group is found. -/
theorem grouping_finds {chain : Nesting → Descent Measured} {p : Phrase}
    (hfits : (Primary.group p).Fits n)
    (hchain : ∀ words c, Stops true words → c.ahead = p.spell true ++ words →
      (chain { n with groups := n.groups + 1 } c).Ends
        (fun m after => m.expr.bare = p.expr ∧ after.ahead = words) fun _ _ => False)
    (h : c.ahead = p.spell true ++ mark .rightParen :: words) :
    FindsPrimary (.group p) words (grouping n chain first c) := by
  have hroom : ¬ n.limit ≤ n.groups := by
    have := hfits.groups
    simp only [Primary.groups] at this
    omega
  unfold grouping
  rw [if_neg hroom]
  simp only [FindsPrimary, ends_bind, ends_pure]
  refine (hchain _ c (stops_mark (by simp) words) h).mono ?_ fun _ _ h => h.elim
  rintro m _ ⟨hm, h⟩
  exact finds_expect h rfl fun _ _ h => ⟨hm, h⟩

/-- A variable is found. -/
theorem variable_finds {arguments : Descent (List Measured)} {name : String}
    (hstops : Stops false words) (h : c.ahead = words) :
    FindsPrimary (.name name) words (variableOrCall n.limit arguments first name c) := by
  refine finds_otherwise (fun t ht => ?_) ?_
  · rw [h] at ht
    rw [ofKind, if_neg]
    intro hk
    exact hstops.1 (by rw [ht, content_of_kind_mark hk])
  · simp only [variableRef, ends_bind, ends_spanFrom, ends_pure]
    exact ⟨rfl, h⟩

/-- A call without arguments is found. -/
theorem emptyCall_finds {arguments : Descent (List Measured)} {name : String}
    (hfits : (Primary.emptyCall name).Fits n)
    (h : c.ahead = mark .leftParen :: mark .rightParen :: words) :
    FindsPrimary (.emptyCall name) words (variableOrCall n.limit arguments first name c) := by
  apply finds_takeIf h (fun t ht => ofKind_eq_some (by rw [Token.kind, ht]; rfl))
  intro _ b h
  have hnext : b.current.kind = .punctuation .rightParen := by
    rw [Token.kind, b.content_current, h]
    rfl
  simp only [callArguments, argumentsIfAny, ends_bind, ends_peek, ends_spanFrom]
  rw [if_pos hnext, ends_pure]
  exact finds_expect h rfl fun _ _ h => finds_node hfits rfl h

/-- The first token of an expression starts a primary expression. -/
theorem Phrase.exists_opening (p : Phrase) (words : List TokenContent) :
    ∃ (o : Opening) (rest : List TokenContent), p.spell true ++ words = o.content :: rest := by
  rw [p.spell_head_tail]
  cases p.head with
  | number value => exact ⟨.number value, _, rfl⟩
  | name name | emptyCall name | call name => exact ⟨.identifier name, _, rfl⟩
  | group => exact ⟨.group, _, rfl⟩
  | cond => exact ⟨.conditional, _, rfl⟩
  | loop | steppedLoop => exact ⟨.loop, _, rfl⟩

/-- A call with arguments is found. -/
theorem call_finds {arguments : Descent (List Measured)} (ha : FindsArguments n arguments)
    {name : String} {a : Arguments} (hfits : (Primary.call name a).Fits n)
    (h : c.ahead = mark .leftParen :: (a.spell true ++ mark .rightParen :: words)) :
    FindsPrimary (.call name a) words (variableOrCall n.limit arguments first name c) := by
  have ⟨hs, hinside, hheight, hgroups⟩ := hfits
  simp only [Primary.expr, Expr.height, Primary.groups] at hheight hgroups
  apply finds_takeIf h (fun t ht => ofKind_eq_some (by rw [Token.kind, ht]; rfl))
  intro _ b h
  have hnext : b.current.kind ≠ .punctuation .rightParen := by
    intro hk
    have hcontent := content_of_kind_mark hk
    obtain ⟨e, more, hspell⟩ : ∃ e more, a.spell true = Phrase.spell true e ++ more := by
      cases a with
      | last e => exact ⟨e, [], by simp [Arguments.spell]⟩
      | more e rest => exact ⟨e, _, rfl⟩
    obtain ⟨o, rest, ho⟩ := e.exists_opening (more ++ mark .rightParen :: words)
    rw [hspell, List.append_assoc, ho] at h
    rw [b.content_current, h] at hcontent
    cases o <;> simp [Opening.content] at hcontent
  simp only [callArguments, argumentsIfAny, ends_bind, ends_peek, ends_spanFrom]
  rw [if_neg hnext]
  refine (ha a words b ⟨hs, by omega, by omega⟩ h).mono ?_ fun _ _ h => h.elim
  rintro ms _ ⟨hms, h⟩
  refine finds_expect h rfl fun _ _ h => finds_node hfits ?_ h
  rw [Measured.call, Expr.bare, hms, Primary.expr]

end

/-! ### Operators -/

/-- A chain of operators is taken by a descent: those of `inner`, which bind tightly enough, but not
those of `outer`, the first of which does not. -/
def FindsOperations (n : Nesting) (least : Nat) (operations : Measured → Descent Measured) : Prop :=
  ∀ (left : Measured) (inner outer : Tail) words c, 1 ≤ n.expressions →
    (inner ++ outer).Settled → (∀ link ∈ inner, least ≤ link.1.precedence) →
    (∀ link ∈ outer.head?, link.1.precedence < least) →
    ((n.expressions + (ofChain left.expr.bare inner.links).height : Nat) : Int) ≤ n.limit + 1 →
    (∀ link ∈ inner, ((n.groups + link.2.groups : Nat) : Int) ≤ n.limit) → Stops true words →
    c.ahead = (inner ++ outer).spell true ++ words →
    (operations left c).Ends (fun m after => m.expr.bare = ofChain left.expr.bare inner.links ∧
      after.ahead = outer.spell true ++ words) fun _ _ => False

/-- A descent takes the primary expression that is ahead. -/
def FindsPrimaries (n : Nesting) (primary : Descent Measured) : Prop :=
  ∀ (p : Primary) words c, p.Fits n → Stops p.isOpen words → c.ahead = p.spell true ++ words →
    FindsPrimary p words (primary c)

/-- The end of a settled tail is settled. -/
theorem Tail.Settled.of_append {t u : Tail} (h : (t ++ u).Settled) : u.Settled := by
  induction t with
  | nil => exact h
  | cons link rest ih => exact ih h.2.2

/-- What binds tightly enough is told by its content. -/
theorem binding?_of_content {t : Token} {op : Operator} (h : t.content = .operator op)
    (least : Nat) :
    binding? least t = if least ≤ op.precedence then some op else none := by
  rw [binding?, Token.operator?, h, Option.filter_some]
  simp

/-- No operator that binds tightly enough is ahead where the first of a tail does not, and nothing
behind it goes on with an expression. -/
theorem binding?_eq_none {least : Nat} {t : Tail} {words : List TokenContent} {token : Token}
    (ht : ∀ link ∈ t.head?, link.1.precedence < least) (hstops : Stops true words)
    (h : (t.spell true ++ words).head? = some token.content) : binding? least token = none := by
  cases hb : binding? least token with
  | none => rfl
  | some op =>
    obtain ⟨hcontent, hle⟩ := content_of_binding? hb
    rw [hcontent] at h
    cases t with
    | nil => exact absurd h (hstops.2 rfl op)
    | cons link rest =>
      obtain rfl : link.1 = op := by simpa [Tail.spell] using h
      exact absurd (ht link rfl) (Nat.not_lt.mpr hle)

/-- The first operator of a tail takes its operand with those that bind more tightly, and the
others go on from there. -/
theorem ofChain_links_operation (first : Expr) (op : Operator) (q : Primary) {tight loose : Tail}
    (htight : ∀ link ∈ tight, op.precedence < link.1.precedence)
    (hloose : ∀ link ∈ loose.head?, link.1.precedence ≤ op.precedence) :
    ofChain first (Tail.links ((op, q) :: (tight ++ loose))) =
      ofChain (.binary op first (ofChain q.expr tight.links) none) loose.links := by
  rw [Tail.links, List.map_cons, List.map_append]
  refine ofChain_operation first op q.expr (fun link hlink => ?_) _ fun link hlink => ?_
  · obtain ⟨l, hl, rfl⟩ := List.mem_map.mp hlink
    exact htight l hl
  · rw [List.head?_map] at hlink
    obtain ⟨l, hl, rfl⟩ := Option.map_eq_some_iff.mp hlink
    exact hloose l hl

section

variable {n : Nesting} {op : Operator} {operations : Measured → Descent Measured} {right : Measured}
  {tight loose : Tail} {words : List TokenContent} {c : Cursor}

/-- A right operand takes the operators that bind more tightly. -/
theorem rightOperand_finds (ho : FindsOperations n (op.precedence + 1) operations)
    (hinside : 1 ≤ n.expressions) (hsettled : (tight ++ loose).Settled)
    (htight : ∀ link ∈ tight, op.precedence < link.1.precedence)
    (hloose : ∀ link ∈ loose.head?, link.1.precedence ≤ op.precedence)
    (hheight : ((n.expressions + (ofChain right.expr.bare tight.links).height : Nat) : Int) ≤
      n.limit + 1)
    (hgroups : ∀ link ∈ tight, ((n.groups + link.2.groups : Nat) : Int) ≤ n.limit)
    (hstops : Stops true words) (h : c.ahead = (tight ++ loose).spell true ++ words) :
    (rightOperand op operations right c).Ends
      (fun m after => m.expr.bare = ofChain right.expr.bare tight.links ∧
        after.ahead = loose.spell true ++ words) fun _ _ => False := by
  simp only [rightOperand, ends_bind, ends_peek]
  split
  · exact ho right tight loose words c hinside hsettled htight
      (fun link hlink => Nat.lt_succ_of_le (hloose link hlink)) hheight hgroups hstops h
  · next hnone =>
    -- no operator binds more tightly: `tight` is empty
    cases tight with
    | nil => exact ⟨by rw [Tail.links, List.map_nil, ofChain_nil], h⟩
    | cons link rest =>
      have hcontent : c.current.content = .operator link.1 := by
        rw [c.content_current, h]
        rfl
      have hlink := htight link List.mem_cons_self
      rw [binding?_of_content hcontent, if_pos (Nat.succ_le_of_lt hlink)] at hnone
      exact absurd rfl hnone

end

/-- An operator takes its right operand, and the operators after that are taken. -/
theorem operation_finds {n : Nesting} {least : Nat} {primary : Descent Measured}
    {narrow wide : Measured → Descent Measured} {op : Operator} {q : Primary} {left : Measured}
    {inner outer : Tail} {words : List TokenContent} {c : Cursor} {token : Token}
    (hp : FindsPrimaries n primary) (hnarrow : FindsOperations n (op.precedence + 1) narrow)
    (hwide : FindsOperations n least wide) (hinside : 1 ≤ n.expressions)
    (hsettled : Tail.Settled ((op, q) :: (inner ++ outer)))
    (hinner : ∀ link ∈ inner, least ≤ link.1.precedence) (hop : least ≤ op.precedence)
    (houter : ∀ link ∈ outer.head?, link.1.precedence < least)
    (hheight : ((n.expressions +
      (ofChain left.expr.bare (Tail.links ((op, q) :: inner))).height : Nat) : Int) ≤ n.limit + 1)
    (hgroups : ∀ link ∈ (op, q) :: inner, ((n.groups + link.2.groups : Nat) : Int) ≤ n.limit)
    (hstops : Stops true words)
    (h : c.ahead = q.spell true ++ ((inner ++ outer).spell true ++ words)) :
    ((do
      let right ← primary
      let right ← rightOperand op narrow right
      let node ← checked n.limit token (.binary op left right)
      wide node : Descent Measured) c).Ends
      (fun m after => m.expr.bare = ofChain left.expr.bare (Tail.links ((op, q) :: inner)) ∧
        after.ahead = outer.spell true ++ words) fun _ _ => False := by
  obtain ⟨hopen, hq, hrest⟩ := hsettled
  obtain ⟨(tight : Tail), (loose : Tail), rfl, htight, hhead⟩ := exists_tight op.precedence inner
  have hloose : ∀ link ∈ (loose ++ outer).head?, link.1.precedence ≤ op.precedence := by
    cases loose with
    | nil => exact fun link hlink => Nat.le_of_lt (Nat.lt_of_lt_of_le (houter link hlink) hop)
    | cons link rest => exact hhead
  rw [List.append_assoc] at hopen hrest h
  rw [List.forall_mem_cons, List.forall_mem_append] at hgroups
  obtain ⟨hgroup, hgroups, hgroups'⟩ := hgroups
  have hlinks := ofChain_links_operation left.expr.bare op q htight hhead
  have hnode := height_first_le_ofChain
    (.binary op left.expr.bare (ofChain q.expr tight.links) none) loose.links
  rw [← hlinks, Expr.height] at hnode
  have hfirst := height_first_le_ofChain q.expr tight.links
  simp only [ends_bind]
  refine (hp q _ c ⟨hq, hinside, by omega, hgroup⟩ (hstops.tail hopen) h).mono ?_
    fun _ _ h => h.elim
  rintro m₁ b₁ ⟨hm₁, h⟩
  rw [← hm₁] at hlinks hnode hfirst
  refine (rightOperand_finds hnarrow hinside hrest htight hloose (by omega) hgroups hstops h).mono
    ?_ fun _ _ h => h.elim
  rintro m₂ b₂ ⟨hm₂, h⟩
  have hbare : (Measured.binary op left m₂).expr.bare =
      .binary op left.expr.bare (ofChain m₁.expr.bare tight.links) none := by
    rw [Measured.binary, Expr.bare, hm₂]
  refine finds_checked ?_ ?_
  · rw [hbare, Expr.height]
    omega
  · rw [hlinks, ← hbare]
    refine hwide _ loose outer words b₂ hinside hrest.of_append
      (fun link hlink => hinner link (List.mem_append_right _ hlink)) houter ?_ hgroups' hstops h
    rw [hbare, ← hlinks]
    exact hheight

end Formulary.Parser
