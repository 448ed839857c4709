import Formulary.Proofs.Grammar.Clause

/-!
# Grouping parentheses of a token list

How many grouping parentheses are open at a place of a token list can be told without reading
expressions: a parenthesis groups unless a name stands before it, and each one that closes belongs
to the last one that is open. `Crosses` says what words do to such a count. For the tokens of a
derivation the greatest count at any place is the one that the derivation has (`Phrase.crosses`,
`crosses_spellAll`).
-/

namespace Formulary.Parser

/-- A scan of tokens: for each parenthesis that is open, the innermost first, whether it groups; and
whether the last token was a name. -/
structure Scan where
  opened : List Bool := []
  afterName : Bool := false

namespace Scan

/-- The scan behind one more token. -/
def next (s : Scan) : TokenContent → Scan
  | .punctuation .leftParen => { opened := (!s.afterName) :: s.opened }
  | .punctuation .rightParen => { opened := s.opened.tail }
  | .identifier _ => { s with afterName := true }
  | _ => { s with afterName := false }

/-- The scan behind more tokens. -/
def through (s : Scan) (words : List TokenContent) : Scan := words.foldl next s

/-- The number of grouping parentheses that are open. -/
def groups (s : Scan) : Nat := s.opened.count true

/-- The greatest number of grouping parentheses that are open before, between and behind tokens. -/
def peak (s : Scan) : List TokenContent → Nat
  | [] => s.groups
  | w :: rest => max s.groups ((s.next w).peak rest)

/-- A bound on the peak is one on the groups at every place. -/
theorem peak_le_iff (s : Scan) (words : List TokenContent) (n : Nat) :
    s.peak words ≤ n ↔ ∀ k, (s.through (words.take k)).groups ≤ n := by
  induction words generalizing s with
  | nil => simp [peak, through]
  | cons w rest ih =>
    rw [peak, Nat.max_le, ih]
    constructor
    · rintro ⟨hhere, hrest⟩ k
      cases k with
      | zero => exact hhere
      | succ k => exact hrest k
    · intro h
      exact ⟨h 0, fun k => h (k + 1)⟩

/-- The groups before tokens count. -/
theorem groups_le_peak (s : Scan) (words : List TokenContent) : s.groups ≤ s.peak words := by
  cases words with
  | nil => exact Nat.le_refl _
  | cons w rest => exact Nat.le_max_left _ _

/-- The peak of two lists of tokens. -/
theorem peak_append (s : Scan) (words more : List TokenContent) :
    s.peak (words ++ more) = max (s.peak words) ((s.through words).peak more) := by
  induction words generalizing s with
  | nil => exact (Nat.max_eq_right (s.groups_le_peak more)).symm
  | cons w rest ih =>
    rw [List.cons_append, peak, peak, ih, Nat.max_assoc]
    rfl

/-- The scan behind two lists of tokens. -/
theorem through_append (s : Scan) (words more : List TokenContent) :
    s.through (words ++ more) = (s.through words).through more := List.foldl_append

end Scan

/-- The number of grouping parentheses that are open behind tokens. -/
def openGroups (words : List TokenContent) : Nat := (Scan.through {} words).groups

/-- Words close what they open, and open so many groups at once, if no name stands before them. -/
structure Crosses (words : List TokenContent) (n : Nat) : Prop where
  closes : ∀ s : Scan, s.afterName = false → (s.through words).opened = s.opened
  peak : ∀ s : Scan, s.afterName = false → s.peak words = s.groups + n

/-- A token that neither is a name nor opens or closes anything. -/
def Separates (w : TokenContent) : Prop := ∀ s : Scan, s.next w = { s with afterName := false }

namespace Crosses

variable {words more : List TokenContent} {n m : Nat} {w : TokenContent}

/-- Words without parentheses open no group. -/
theorem of_plain (h : ∀ w ∈ words, w ≠ mark .leftParen ∧ w ≠ mark .rightParen) :
    Crosses words 0 := by
  have hplain (s : Scan) : (s.through words).opened = s.opened ∧ s.peak words = s.groups := by
    induction words generalizing s with
    | nil => exact ⟨rfl, rfl⟩
    | cons w rest ih =>
      obtain ⟨hw, hrest⟩ := List.forall_mem_cons.mp h
      have hnext : (s.next w).opened = s.opened := by
        unfold Scan.next
        split
        · exact absurd rfl hw.1
        · exact absurd rfl hw.2
        · rfl
        · rfl
      obtain ⟨hopened, hpeak⟩ := ih hrest (s.next w)
      refine ⟨hopened.trans hnext, ?_⟩
      rw [Scan.peak, hpeak, Scan.groups, Scan.groups, hnext, Nat.max_self]
  exact ⟨fun s _ => (hplain s).1, fun s _ => (hplain s).2⟩

/-- No words open no group. -/
theorem nil : Crosses [] 0 := of_plain (List.forall_mem_nil _)

/-- Words with a separator between them. -/
theorem separate (h : Crosses words n) (hw : Separates w) (hmore : Crosses more m) :
    Crosses (words ++ w :: more) (max n m) := by
  have hstart (s : Scan) (hs : s.afterName = false) :
      ((s.through words).next w) = s := by
    obtain ⟨opened, afterName⟩ := s
    obtain rfl : afterName = false := hs
    rw [hw, h.closes _ rfl]
  constructor
  · intro s hs
    rw [Scan.through_append, Scan.through, List.foldl_cons, hstart s hs]
    exact hmore.closes s hs
  · intro s hs
    have hgroups : (s.through words).groups = s.groups := congrArg (List.count true) (h.closes s hs)
    rw [Scan.peak_append, Scan.peak, hstart s hs, h.peak s hs, hmore.peak s hs, hgroups]
    omega

/-- Words behind a separator. -/
theorem cons (hw : Separates w) (hmore : Crosses more m) : Crosses (w :: more) m := by
  have h := nil.separate hw hmore
  rwa [Nat.zero_max] at h

/-- Words in parentheses of either kind, and words behind them. -/
theorem closed (h : Crosses words n) (hmore : Crosses more m) (s : Scan) (isGroup : Bool) :
    let inner : Scan := { opened := isGroup :: s.opened }
    (inner.through (words ++ mark .rightParen :: more)).opened = s.opened ∧
      inner.peak (words ++ mark .rightParen :: more) = max (inner.groups + n) (s.groups + m) := by
  intro inner
  have hclose : (inner.through words).next (mark .rightParen) = { opened := s.opened } := by
    rw [Scan.next, h.closes inner rfl]
    rfl
  have hinner : (inner.through words).groups = inner.groups :=
    congrArg (List.count true) (h.closes inner rfl)
  constructor
  · rw [Scan.through_append, Scan.through, List.foldl_cons, hclose]
    exact hmore.closes _ rfl
  · have houter : Scan.groups { opened := s.opened } = s.groups := rfl
    rw [Scan.peak_append, Scan.peak, hclose, h.peak inner rfl, hmore.peak _ rfl, hinner, houter]
    omega

/-- Words in grouping parentheses open one more group. -/
theorem group (h : Crosses words n) (hmore : Crosses more m) :
    Crosses (mark .leftParen :: (words ++ mark .rightParen :: more)) (max (n + 1) m) := by
  have hnext (s : Scan) (hs : s.afterName = false) :
      s.next (mark .leftParen) = { opened := true :: s.opened } := by
    rw [Scan.next, hs]
    rfl
  constructor
  · intro s hs
    rw [Scan.through, List.foldl_cons, hnext s hs]
    exact (h.closed hmore s true).1
  · intro s hs
    have hgroups : Scan.groups { opened := true :: s.opened } = s.groups + 1 :=
      List.count_cons_self
    rw [Scan.peak, hnext s hs, (h.closed hmore s true).2, hgroups]
    omega

/-- Words in the parentheses of a call open no group of their own. -/
theorem call (name : String) (h : Crosses words n) (hmore : Crosses more m) :
    Crosses (.identifier name :: mark .leftParen :: (words ++ mark .rightParen :: more))
      (max n m) := by
  have hnext (s : Scan) :
      (s.next (.identifier name)).next (mark .leftParen) = { opened := false :: s.opened } := rfl
  constructor
  · intro s _
    rw [Scan.through, List.foldl_cons, List.foldl_cons, hnext s]
    exact (h.closed hmore s false).1
  · intro s _
    have hname : (s.next (.identifier name)).groups = s.groups := rfl
    have hgroups : Scan.groups { opened := false :: s.opened } = s.groups :=
      List.count_cons_of_ne (by decide)
    rw [Scan.peak, Scan.peak, hnext s, (h.closed hmore s false).2, hgroups, hname]
    omega

end Crosses

/-- Operators separate. -/
theorem separates_operator (op : Operator) : Separates (.operator op) := fun _ => rfl

/-- Keywords separate. -/
theorem separates_word (w : Keyword) : Separates (word w) := fun _ => rfl

/-- So does the comma. -/
theorem separates_comma : Separates (mark .comma) := fun _ => rfl

/-- So does the semicolon. -/
theorem separates_semicolon : Separates (mark .semicolon) := fun _ => rfl

mutual

/-- The tokens of an expression open as many groups at once as the expression has. -/
theorem Phrase.crosses : ∀ p : Phrase, Crosses (p.spell true) p.groups
  | .operand p => p.crosses
  | .operation left op rest => left.crosses.separate (separates_operator op) rest.crosses

/-- So do those of a primary expression. -/
theorem Primary.crosses : ∀ p : Primary, Crosses (p.spell true) p.groups
  | .number value => .of_plain (by simp [Primary.spell])
  | .name name => .of_plain (by simp [Primary.spell])
  | .emptyCall name => .call name .nil .nil
  | .call name arguments => by
    have h := Crosses.call name arguments.crosses .nil
    rwa [Nat.max_zero] at h
  | .group inner => by
    have h := inner.crosses.group .nil
    rwa [Nat.max_zero] at h
  | .cond condition consequent alternative =>
    .cons (separates_word _) (condition.crosses.separate (separates_word _)
      (consequent.crosses.separate (separates_word _) alternative.crosses))
  | .loop name start stop body => by
    have hname : Crosses [.identifier name] 0 := .of_plain (by simp)
    have h := hname.separate (separates_operator .equals) (start.crosses.separate separates_comma
      (stop.crosses.separate (separates_word .inWord) body.crosses))
    rw [Nat.zero_max] at h
    exact .cons (separates_word _) h
  | .steppedLoop name start stop step body => by
    have hname : Crosses [.identifier name] 0 := .of_plain (by simp)
    have h := hname.separate (separates_operator .equals) (start.crosses.separate separates_comma
      (stop.crosses.separate separates_comma
        (step.crosses.separate (separates_word .inWord) body.crosses)))
    rw [Nat.zero_max] at h
    exact .cons (separates_word _) h

/-- So do those of arguments. -/
theorem Arguments.crosses : ∀ a : Arguments, Crosses (a.spell true) a.groups
  | .last e => e.crosses
  | .more e rest => e.crosses.separate separates_comma rest.crosses

end

/-- A prototype opens no group. -/
theorem Signature.crosses (s : Signature) {more : List TokenContent} {m : Nat}
    (hmore : Crosses more m) : Crosses (s.spell true ++ more) m := by
  have hparams : Crosses (s.params.flatMap (Signature.spellParam true)) 0 := by
    apply Crosses.of_plain
    intro w hw
    obtain ⟨param, _, hw⟩ := List.mem_flatMap.mp hw
    have hword : w = .identifier param.1 ∨ w = mark .comma := by
      unfold spellParam at hw
      split at hw <;> simp_all
    rcases hword with rfl | rfl <;> simp
  have h := Crosses.call s.name hparams hmore
  rw [Nat.zero_max] at h
  rw [spell, List.cons_append, List.cons_append, List.append_assoc]
  exact h

/-- The tokens of a clause open as many groups at once as its expression has. -/
theorem Clause.crosses (k : Clause) {more : List TokenContent} {m : Nat} (hmore : Crosses more m) :
    Crosses (k.spell true ++ more) (max k.groups m) := by
  have hend : Crosses (mark .semicolon :: more) m := .cons separates_semicolon hmore
  cases k with
  | foreign s =>
    rw [spell, groups, Nat.zero_max, List.cons_append, List.append_assoc]
    exact .cons (separates_word _) (s.crosses hend)
  | definition s body =>
    rw [spell, groups, List.cons_append, List.append_assoc, List.append_assoc]
    exact .cons (separates_word _) (s.crosses (body.crosses.separate separates_semicolon hmore))
  | formula e =>
    rw [spell, groups, List.append_assoc]
    exact e.crosses.separate separates_semicolon hmore
  | empty =>
    rw [groups, Nat.zero_max]
    exact hend

/-- The tokens of clauses open as many groups at once as the clause with the most. -/
theorem crosses_spellAll (ks : List Clause) :
    ∃ n, Crosses (spellAll true ks) n ∧ ∀ bound, n ≤ bound ↔ ∀ k ∈ ks, k.groups ≤ bound := by
  induction ks with
  | nil => exact ⟨0, .nil, by simp⟩
  | cons k rest ih =>
    obtain ⟨n, hcrosses, hbound⟩ := ih
    refine ⟨max k.groups n, k.crosses hcrosses, fun bound => ?_⟩
    rw [List.forall_mem_cons, Nat.max_le, hbound]

/-- The groups of clauses can be told from their tokens. -/
theorem groups_le_iff_openGroups_le (ks : List Clause) (bound : Nat) :
    (∀ k ∈ ks, k.groups ≤ bound) ↔ ∀ i, openGroups ((spellAll true ks).take i) ≤ bound := by
  obtain ⟨n, hcrosses, hbound⟩ := crosses_spellAll ks
  have hpeak := hcrosses.peak {} rfl
  rw [show Scan.groups {} = 0 from rfl, Nat.zero_add] at hpeak
  rw [← hbound, ← hpeak]
  exact Scan.peak_le_iff {} (spellAll true ks) bound

end Formulary.Parser
