import Formulary.Proofs.Descent.Reading
import Formulary.Proofs.Grammar.Clause

/-!
# Everything that is read is derived

The rules for the single descents, put together by induction on the fuel: expressions, prototypes,
statements and whole token lists. Each theorem says in one contract what a success has read and
that a failure is a `Stuck` one.
-/

namespace Formulary.Parser

open Descent

/-- A right operand with the operators that it takes. -/
theorem rightOperand_reads {n : Nesting} {c : Cursor} {op : Operator} {right : Measured}
    {operations : Measured → Descent Measured} (hheight : (right.height : Int) ≤ n.limit)
    (ho : (operations right c).Ends (ReadsTail n right c) (Stuck IsTail c)) :
    (rightOperand op operations right c).Ends (ReadsTail n right c) (Stuck IsTail c) := by
  simp only [rightOperand, ends_bind, ends_peek]
  split
  · exact ho
  · exact ⟨[], .refl c, by simp [Tail.spell], hheight, by simp⟩

/-- One operator with its right operand, and the operators after that. -/
theorem operation_reads {n : Nesting} {c b : Cursor} {op : Operator} {left : Measured}
    {token : Token} {primary : Descent Measured} {inner outer : Measured → Descent Measured}
    (hp : ∀ b, (primary b).Ends (ReadsPrimary n b) (Stuck IsPrimary b))
    (hinner : ∀ right : Measured, (right.height : Int) ≤ n.limit → ∀ b,
      (inner right b).Ends (ReadsTail n right b) (Stuck IsTail b))
    (houter : ∀ node : Measured, (node.height : Int) ≤ n.limit → ∀ b,
      (outer node b).Ends (ReadsTail n node b) (Stuck IsTail b))
    (h : c.Spells [.operator op] b) :
    ((do
      let right ← primary
      let right ← rightOperand op inner right
      let node ← checked n.limit token (.binary op left right)
      outer node : Descent Measured) b).Ends (ReadsTail n left c) (Stuck IsTail c) := by
  simp only [ends_bind]
  refine (hp b).mono (fun m₁ b₁ hread => ?_) fun err after hstuck => hstuck.inside h [] ?_
  · obtain ⟨p, hspells, hflat, hheight, hgroups⟩ := hread
    have h := h.trans hspells
    refine (rightOperand_reads hheight (hinner m₁ hheight b₁)).mono (fun m₂ b₂ hread => ?_)
      fun err after hstuck => hstuck.inside h [] ?_
    · obtain ⟨t, hspells, hflat₂, hheight₂, hgroups₂⟩ := hread
      have h := h.trans hspells
      refine ends_checked (fun hnode => ?_) fun _ => .inl ⟨_, rfl⟩
      refine (houter _ hnode b₂).mono (fun m₃ b₃ hread => ?_) fun err after hstuck =>
        hstuck.inside h [] ?_
      · obtain ⟨u, hspells, hflat₃, hheight₃, hgroups₃⟩ := hread
        refine ⟨(op, p) :: t ++ u, ?_, ?_, hheight₃, fun link hlink => ?_⟩
        · simpa [Tail.spell_cons, Tail.spell_append] using h.trans hspells
        · rw [hflat₃, Measured.binary, Expr.flat, hflat₂, hflat]
          simp [Tail.spell_cons, Tail.spell_append]
        · rw [List.cons_append, List.mem_cons, List.mem_append] at hlink
          rcases hlink with rfl | hlink | hlink
          · exact hgroups
          · exact hgroups₂ link hlink
          · exact hgroups₃ link hlink
      · rintro _ ⟨u, rfl⟩
        exact ⟨(op, p) :: t ++ u, by simp [Tail.spell_cons, Tail.spell_append]⟩
    · rintro _ ⟨t, rfl⟩
      exact ⟨(op, p) :: t, by simp [Tail.spell_cons]⟩
  · rintro _ ⟨p, rfl⟩
    exact ⟨[(op, p)], by simp [Tail.spell]⟩

/-- The flattened trees of one argument and others. -/
theorem flats_cons (m : Measured) {ms : List Measured} (h : ms ≠ []) :
    Expr.flats ((m :: ms).map Measured.expr) =
      m.expr.flat ++ mark .comma :: Expr.flats (ms.map Measured.expr) := by
  cases ms with
  | nil => contradiction
  | cons next rest => rfl

/-- All descents into expressions with some fuel read what the grammar derives. -/
structure ReadsWithin (fuel : Nat) : Prop where
  expression : ∀ n c, (n.groups : Int) ≤ max n.limit 0 →
    (expressionWithin fuel n c).Ends (ReadsPhrase n c) (Stuck IsPhrase c)
  chain : ∀ n c, n.HasRoom → (chainWithin fuel n c).Ends (ReadsPhrase n c) (Stuck IsPhrase c)
  primary : ∀ n c, n.HasRoom →
    (primaryWithin fuel n c).Ends (ReadsPrimary n c) (Stuck IsPrimary c)
  operations : ∀ n least left c, n.HasRoom → (left.height : Int) ≤ n.limit →
    (operationsWithin fuel n least left c).Ends (ReadsTail n left c) (Stuck IsTail c)
  arguments : ∀ n c, n.HasRoom →
    (argumentsWithin fuel n c).Ends (ReadsArguments n c) (Stuck IsArguments c)

namespace ReadsWithin

/-- Without fuel nothing is read. -/
theorem zero : ReadsWithin 0 :=
  ⟨fun _ _ _ => trivial, fun _ _ _ => trivial, fun _ _ _ => trivial, fun _ _ _ _ _ _ => trivial,
    fun _ _ _ => trivial⟩

section

variable {fuel : Nat} {n : Nesting} {c : Cursor} (within : ReadsWithin fuel) (room : n.HasRoom)

include within

include room in
/-- An expression inside another is read, since there is room for it. -/
theorem inside : (expressionWithin fuel n c).Ends (ReadsPhrase n c) (Stuck IsPhrase c) :=
  within.expression n c (Int.le_trans room.groups (Int.le_max_left _ _))

/-- With more fuel an expression is read. -/
theorem expression_succ (hgroups : (n.groups : Int) ≤ max n.limit 0) :
    (expressionWithin (fuel + 1) n c).Ends (ReadsPhrase n c) (Stuck IsPhrase c) := by
  unfold expressionWithin
  split
  · simp only [ends_bind, ends_peek, ends_fail]
    exact .inl ⟨_, rfl⟩
  · next hlevel =>
    have room : n.HasRoom := ⟨by omega, by omega⟩
    exact within.chain { n with expressions := n.expressions + 1 } c ⟨room.level, room.groups⟩

include room

/-- With more fuel a chain of operators is read. -/
theorem chain_succ :
    (chainWithin (fuel + 1) n c).Ends (ReadsPhrase n c) (Stuck IsPhrase c) := by
  simp only [chainWithin, ends_bind]
  refine (within.primary n c room).mono (fun m₁ b₁ hread => ?_) fun err after hstuck =>
    hstuck.inside (.refl c) [] ?_
  · obtain ⟨p, h, hflat, hheight, hgroups⟩ := hread
    refine (within.operations n 0 m₁ b₁ room hheight).mono (fun m₂ b₂ hread => ?_)
      fun err after hstuck => hstuck.inside h [] ?_
    · obtain ⟨t, hspells, hflat₂, hheight₂, hgroups₂⟩ := hread
      refine ⟨.ofTail p t, ?_, ?_, hheight₂, ?_⟩
      · rw [Phrase.spell_ofTail]
        exact h.trans hspells
      · rw [hflat₂, hflat, Phrase.spell_ofTail]
      · have hle := Phrase.groups_ofTail_le (p := p) (t := t) (n := (n.limit - n.groups).toNat)
          (by omega) fun link hlink => by have := hgroups₂ link hlink; omega
        have := room.groups
        omega
    · rintro _ ⟨t, rfl⟩
      exact ⟨.ofTail p t, by simp [Phrase.spell_ofTail]⟩
  · rintro _ ⟨p, rfl⟩
    exact ⟨.operand p, by simp [Phrase.spell]⟩

/-- With more fuel a primary expression is read. -/
theorem primary_succ :
    (primaryWithin (fuel + 1) n c).Ends (ReadsPrimary n c) (Stuck IsPrimary c) := by
  simp only [primaryWithin, ends_bind]
  refine ends_take (fun t rest opening hrest hopening => ?_)
    (.here (.refl c) [.number 0] ⟨.number 0, rfl⟩ rfl)
  have h : c.Spells [opening.content] (c.pass t rest) := by
    rw [← content_of_opening? hopening]
    exact .one hrest
  cases opening with
  | number value =>
    have hlevel := room.level
    have hgroups := room.groups
    simp only [ends_bind, ends_spanFrom, ends_pure]
    exact ⟨.number value, h, rfl, by simpa using hlevel, by simpa [Primary.groups] using hgroups⟩
  | identifier name => exact variableOrCall_reads room (fun b => within.arguments n b room) h
  | group => exact grouping_reads (fun hlimit b => within.chain _ b ⟨room.level, hlimit⟩) h
  | conditional => exact conditional_reads (fun _ => within.inside room) h
  | loop => exact forLoop_reads (fun _ => within.inside room) h

/-- With more fuel operators are read behind a left operand. -/
theorem operations_succ (least : Nat) {left : Measured} (hleft : (left.height : Int) ≤ n.limit) :
    (operationsWithin (fuel + 1) n least left c).Ends (ReadsTail n left c) (Stuck IsTail c) := by
  unfold operationsWithin
  refine ends_takeIf (fun t rest op hrest hop => ?_) ?_
  · have h : c.Spells [.operator op] (c.pass t rest) := by
      rw [← (content_of_binding? hop).1]
      exact .one hrest
    exact operation_reads (fun b => within.primary n b room)
      (fun right hright b => within.operations n _ right b room hright)
      (fun node hnode b => within.operations n _ node b room hnode) h
  · exact fun _ => ⟨[], .refl c, by simp [Tail.spell], hleft, by simp⟩

/-- With more fuel arguments are read. -/
theorem arguments_succ :
    (argumentsWithin (fuel + 1) n c).Ends (ReadsArguments n c) (Stuck IsArguments c) := by
  simp only [argumentsWithin, ends_bind, ends_peek]
  apply ends_part (within.inside room) (.refl c) [] fun p => ⟨.last p, by simp [Arguments.spell]⟩
  intro p₁ m₁ b₁ h hflat₁ _ hgroups₁
  split
  · exact ⟨.last p₁, by simpa [Arguments.spell] using h, by simp,
      by simp [Expr.flats, Arguments.spell, hflat₁], hgroups₁⟩
  · simp only [ends_bind, ends_pure]
    refine ends_take (fun t rest _ hrest hcomma => ?_)
      (.here h [mark .comma, .number 0] ⟨.more p₁ (.last filler), by
        simp [Arguments.spell, Phrase.spell, Primary.spell, filler]⟩ rfl)
    have h := h.trans (.ofMark hrest (kind_of_ofKind hcomma))
    refine (within.arguments n _ room).mono (fun ms after hread => ?_) fun err after hstuck =>
      hstuck.inside h [] ?_
    · obtain ⟨a, hspells, hne, hflats, hgroups⟩ := hread
      refine ⟨.more p₁ a, by simpa [Arguments.spell] using h.trans hspells, by simp, ?_, ?_⟩
      · rw [flats_cons _ hne, hflats, hflat₁, Arguments.spell]
      · simp only [Arguments.groups]
        omega
    · rintro _ ⟨a, rfl⟩
      exact ⟨.more p₁ a, by simp [Arguments.spell]⟩

end

end ReadsWithin

/-- All descents into expressions read what the grammar derives, whatever their fuel. -/
theorem reads_within (fuel : Nat) : ReadsWithin fuel := by
  induction fuel with
  | zero => exact .zero
  | succ fuel within =>
    constructor
    · intro n c hgroups
      exact within.expression_succ hgroups
    · intro n c room
      exact within.chain_succ room
    · intro n c room
      exact within.primary_succ room
    · intro n least left c room hleft
      exact within.operations_succ room least hleft
    · intro n c room
      exact within.arguments_succ room

end Formulary.Parser
