import Formulary.Expr.OnStack
import Formulary.Proofs.Descent.Unstacked
import Formulary.Proofs.Source.Parsed
import Formulary.Proofs.Source.Printed

/-!
# Printing and reading again

Canonical text is read again as the program that was printed: the text has the tokens of the
canonical derivations, these keep the nesting limit, and what they say are the statements of the
program without their spans. Neither equality nor printing looks at spans.

Printing takes frames of the stack, and so does reading. The printed text has more parentheses than the
text that the program may come from, so a stack that served for the one need not serve for the other.
-/

namespace Formulary

open Formulary.Parser

namespace Expr

/-- Lists of trees are equal if trees that differ only in their spans are. -/
theorem beqs_of_bares_eq {es es' : List Expr} (h : bares es = bares es')
    (hbeq : ∀ e ∈ es, ∀ e' : Expr, e.bare = e'.bare → beq e e' = true) : beqs es es' = true := by
  induction es generalizing es' with
  | nil =>
    cases es' with
    | nil => rfl
    | cons e' rest' => contradiction
  | cons e rest ih =>
    cases es' with
    | nil => contradiction
    | cons e' rest' =>
      obtain ⟨he, hrest⟩ := List.cons.inj h
      obtain ⟨hfirst, hbeq⟩ := List.forall_mem_cons.mp hbeq
      rw [beqs, hfirst e' he, ih hrest hbeq]
      rfl

/-- Trees that differ only in their spans are equal, if their numbers are. -/
theorem beq_of_bare_eq {e e' : Expr} (h : e.bare = e'.bare)
    (hproper : ∀ w ∈ e'.flat, w.IsProper) : (e == e') = true := by
  rw [← flat_bare, ← h, flat_bare] at hproper
  show beq e e' = true
  induction e generalizing e' with
  | number value span =>
    cases e' with
    | number value' span' =>
      simp only [bare, number.injEq, and_true] at h
      have hvalue : Number.IsLiteral value := hproper (.number value) List.mem_cons_self
      rw [beq, ← h]
      exact Number.beq_self_of_isFinite hvalue.finite
    | _ => simp [bare, bare_loop] at h
  | var name span =>
    cases e' with
    | var name' span' =>
      simp only [bare, var.injEq, and_true] at h
      rw [beq, h, beq_self_eq_true]
    | _ => simp [bare, bare_loop] at h
  | binary op left right span hl hr =>
    cases e' with
    | binary op' left' right' span' =>
      simp only [bare, binary.injEq, and_true] at h
      simp only [flat, List.forall_mem_append, List.forall_mem_cons] at hproper
      rw [beq, h.1, hl h.2.1 hproper.1, hr h.2.2 hproper.2.2, beq_self_eq_true]
      rfl
    | _ => simp [bare, bare_loop] at h
  | call name arguments span ih =>
    cases e' with
    | call name' arguments' span' =>
      simp only [bare, call.injEq, and_true] at h
      obtain ⟨hname, hbares⟩ := h
      simp only [flat, List.forall_mem_append, List.forall_mem_cons] at hproper
      obtain ⟨_, _, hflats, _⟩ := hproper
      have hbeqs : beqs arguments arguments' = true :=
        beqs_of_bares_eq hbares fun a ha a' ha' =>
          ih a ha ha' fun w hw => hflats w (flat_subset_flats ha hw)
      rw [beq, hname, hbeqs, beq_self_eq_true]
      rfl
    | _ => simp [bare, bare_loop] at h
  | cond condition consequent alternative span hc ht hf =>
    cases e' with
    | cond condition' consequent' alternative' span' =>
      simp only [bare, cond.injEq, and_true] at h
      simp only [flat, List.forall_mem_append, List.forall_mem_cons] at hproper
      obtain ⟨_, hproperc, _, hpropert, _, hproperf⟩ := hproper
      rw [beq, hc h.1 hproperc, ht h.2.1 hpropert, hf h.2.2 hproperf]
      rfl
    | _ => simp [bare, bare_loop] at h
  | loop name start stop step body span h1 h2 h3 h4 =>
    cases e' with
    | loop name' start' stop' step' body' span' =>
      cases step with
      | none =>
        cases step' with
        | none =>
          simp only [bare, loop.injEq, and_true, true_and] at h
          obtain ⟨hname, hstart, hstop, hbody⟩ := h
          simp only [flat, List.forall_mem_append, List.forall_mem_cons] at hproper
          obtain ⟨_, _, _, hproper1, _, hproper2, _, hproper4⟩ := hproper
          rw [beq, hname, h1 hstart hproper1, h2 hstop hproper2, h4 hbody hproper4,
            beq_self_eq_true]
          rfl
        | some s' => simp [bare_loop] at h
      | some s =>
        cases step' with
        | none => simp [bare_loop] at h
        | some s' =>
          simp only [bare, loop.injEq, and_true, Option.some.injEq] at h
          obtain ⟨hname, hstart, hstop, hstep, hbody⟩ := h
          simp only [flat, List.forall_mem_append, List.forall_mem_cons] at hproper
          obtain ⟨_, _, _, hproper1, _, hproper2, _, hproper3, _, hproper4⟩ := hproper
          rw [beq, hname, h1 hstart hproper1, h2 hstop hproper2, h3 s rfl hstep hproper3,
            h4 hbody hproper4, beq_self_eq_true]
          rfl
    | _ => simp [bare, bare_loop] at h

/-- Spans are no part of the canonical text. -/
@[simp] theorem source_bare (e : Expr) : e.bare.source = e.source := by
  induction e with
  | number value span => rfl
  | var name span => rfl
  | binary op left right span hl hr => simp only [bare, source_binary, hl, hr]
  | call name arguments span ih =>
    have hsources : sources (bares arguments) = sources arguments := by
      rw [sources_eq_map, sources_eq_map, bares_eq_map, List.map_map]
      exact List.map_congr_left ih
    simp only [bare, source_call, hsources]
  | cond condition consequent alternative span hc ht hf => simp only [bare, source_cond, hc, ht, hf]
  | loop name start stop step body span h1 h2 h3 h4 =>
    cases step with
    | none => simp only [bare, source_loop, h1, h2, h4]
    | some s => simp only [bare, source_steppedLoop, h1, h2, h3 s rfl, h4]

/-- Spans take no frames of a walk. -/
@[simp] theorem walkFrames_bare (w : Walk) (e : Expr) : walkFrames w e.bare = walkFrames w e := by
  induction e with
  | number value span => rfl
  | var name span => rfl
  | binary op left right span hl hr => simp only [bare, walkFrames, hl, hr]
  | call name arguments span ih =>
    have hwalks : walksFrames w (bares arguments) = walksFrames w arguments := by
      induction arguments with
      | nil => rfl
      | cons a rest ihrest =>
        obtain ⟨ha, hrest⟩ := List.forall_mem_cons.mp ih
        rw [bares, walksFrames, walksFrames, ha, ihrest hrest]
    simp only [bare, walkFrames, hwalks]
  | cond condition consequent alternative span hc ht hf =>
    simp only [bare, walkFrames, hc, ht, hf]
  | loop name start stop step body span h1 h2 h3 h4 =>
    cases step with
    | none => simp only [bare_loop, Option.map_none, walkFrames, h1, h2, h4]
    | some s => simp only [bare_loop, Option.map_some, walkFrames, h1, h2, h3 s rfl, h4]

theorem walksFrames_map_bare (w : Walk) (es : List Expr) :
    walksFrames w (es.map bare) = walksFrames w es := by
  induction es with
  | nil => rfl
  | cons e rest ih => rw [List.map_cons, walksFrames, walksFrames, walkFrames_bare, ih]

end Expr

/-- Prototypes that differ only in their spans are equal. -/
theorem Prototype.beq_of_bare_eq {p p' : Prototype} (h : p.bare = p'.bare) : (p == p') = true := by
  simp only [bare, mk.injEq, and_true] at h
  show (p.name == p'.name && p.params == p'.params) = true
  rw [h.1, h.2, beq_self_eq_true, beq_self_eq_true]
  rfl

/-- Definitions that differ only in their spans are equal, if their numbers are. -/
theorem Definition.beq_of_bare_eq {d d' : Definition} (h : d.bare = d'.bare)
    (hproper : ∀ w ∈ d'.body.flat, w.IsProper) : (d == d') = true := by
  simp only [bare, mk.injEq] at h
  show (d.prototype == d'.prototype && d.body == d'.body) = true
  rw [Prototype.beq_of_bare_eq h.1, Expr.beq_of_bare_eq h.2 hproper]
  rfl

/-- Spans are no part of the canonical text of a statement. -/
@[simp] theorem Statement.source_bare (s : Statement) : s.bare.source = s.source := by
  cases s with
  | foreign p => rfl
  | definition d =>
    simp only [bare, source, Definition.source, Definition.bare, Expr.source_bare]
    rfl
  | expression e => simp only [bare, source, Expr.source_bare]

/-- Lists are equal if elements are that have the same image. -/
theorem beq_of_map_eq {α β : Type} [BEq α] {f : α → β} {l l' : List α} (h : l.map f = l'.map f)
    (hbeq : ∀ a' ∈ l', ∀ a, f a = f a' → (a == a') = true) : (l == l') = true := by
  induction l generalizing l' with
  | nil =>
    cases l' with
    | nil => rfl
    | cons a' rest' => contradiction
  | cons a rest ih =>
    cases l' with
    | nil => contradiction
    | cons a' rest' =>
      obtain ⟨ha, hrest⟩ := List.cons.inj h
      obtain ⟨hfirst, hbeq⟩ := List.forall_mem_cons.mp hbeq
      show (a == a' && rest == rest') = true
      rw [hfirst a ha, ih hrest hbeq]
      rfl

namespace Program

/-- Two programs have the same statements, but for their spans. -/
structure Alike (p p' : Program) : Prop where
  externs : p.externs.map Prototype.bare = p'.externs.map Prototype.bare
  definitions : p.definitions.map Definition.bare = p'.definitions.map Definition.bare
  expressions : p.expressions.map Expr.bare = p'.expressions.map Expr.bare

/-- Statements of one kind are alike if all statements are. -/
theorem map_filterMap_bare {α : Type} {part? : Statement → Option α} {bare : α → α}
    (hpart : ∀ s, part? s.bare = (part? s).map bare) {ss ss' : List Statement}
    (h : ss.map Statement.bare = ss'.map Statement.bare) :
    (ss.filterMap part?).map bare = (ss'.filterMap part?).map bare := by
  have hkind (l : List Statement) :
      (l.filterMap part?).map bare = (l.map Statement.bare).filterMap part? := by
    rw [List.map_filterMap, List.filterMap_map]
    congr 1
    funext s
    exact (hpart s).symm
  rw [hkind, hkind, h]

/-- A program made of the statements of another is like it. -/
theorem alike_of_statements {p : Program} {ss : List Statement}
    (h : ss.map Statement.bare = p.statements.map Statement.bare) :
    (ofStatements ss).close.Alike p := by
  have hnone {α β : Type} (l : List α) : l.filterMap (fun _ => (none : Option β)) = [] :=
    List.filterMap_eq_nil_iff.mpr fun _ _ => rfl
  have hexterns : p.statements.filterMap Statement.foreign? = p.externs := by
    simp [statements, List.filterMap_map, Function.comp_def, Statement.foreign?, hnone]
  have hdefinitions : p.statements.filterMap Statement.definition? = p.definitions := by
    simp [statements, List.filterMap_map, Function.comp_def, Statement.definition?, hnone]
  have hexpressions : p.statements.filterMap Statement.expression? = p.expressions := by
    simp [statements, List.filterMap_map, Function.comp_def, Statement.expression?, hnone]
  constructor
  · rw [close, externs_ofStatements, ← hexterns]
    exact map_filterMap_bare (fun s => by cases s <;> rfl) h
  · rw [close, definitions_ofStatements, ← hdefinitions]
    exact map_filterMap_bare (fun s => by cases s <;> rfl) h
  · rw [close, expressions_ofStatements, ← hexpressions]
    exact map_filterMap_bare (fun s => by cases s <;> rfl) h

/-- A program that is like one that can be printed is equal to it. -/
theorem Alike.beq {p p' : Program} {limit : Int} (h : p.Alike p') (hprintable : p'.Printable limit) :
    (p == p') = true := by
  have hexterns : (p.externs == p'.externs) = true :=
    beq_of_map_eq h.externs fun _ _ _ hbare => Prototype.beq_of_bare_eq hbare
  have hdefinitions : (p.definitions == p'.definitions) = true := by
    apply beq_of_map_eq h.definitions
    intro d hd _ hbare
    apply Definition.beq_of_bare_eq hbare
    intro w hw
    apply hprintable.proper (.definition d) (by simp [statements, hd]) w
    simp [Statement.flat, Definition.flat, hw]
  have hexpressions : (p.expressions == p'.expressions) = true := by
    apply beq_of_map_eq h.expressions
    intro e he _ hbare
    apply Expr.beq_of_bare_eq hbare
    intro w hw
    apply hprintable.proper (.expression e) (by simp [statements, he]) w
    simp [Statement.flat, Expr.flatStatement, hw]
  show (p.externs == p'.externs && p.definitions == p'.definitions &&
    p.expressions == p'.expressions) = true
  rw [hexterns, hdefinitions, hexpressions]
  rfl

/-- Programs that are alike have the same canonical text. -/
theorem Alike.source_eq {p p' : Program} (h : p.Alike p') : p.source = p'.source := by
  have hstatements (p : Program) : p.statements.map Statement.bare =
      (p.externs.map Prototype.bare).map .foreign ++
        (p.definitions.map Definition.bare).map .definition ++
        (p.expressions.map Expr.bare).map .expression := by
    simp [statements, Function.comp_def, Statement.bare]
  have hsource (p : Program) : p.source =
      String.join ((p.statements.map Statement.bare).map fun s => s.source ++ "\n") := by
    simp [source, Function.comp_def]
  rw [hsource, hsource, hstatements, hstatements, h.externs, h.definitions, h.expressions]

/-- A program that can be printed within the nesting limit is printed as a text that is read within the
same limit as a program like it. -/
theorem Printable.read_again {p : Program} {limit : Int} (hprintable : p.Printable limit)
    (filename : String) : ∃ q, ofSource p.source filename limit = .ok q ∧ q.Alike p := by
  obtain ⟨tokens, htokens, hcontents⟩ := tokenize_source hprintable.proper filename
  have hfits : ∀ k ∈ p.statements.map Statement.canonical, k.Fits limit :=
    List.forall_mem_map.mpr fun s hs =>
      Statement.fits_canonical (hprintable.distinct s hs) (hprintable.height_le s hs)
  obtain ⟨ss, hparse, hbare⟩ := parse_finds hcontents.symm hfits
  have hstatements : ss.map Statement.bare = p.statements.map Statement.bare := by
    rw [hbare, List.filterMap_map, ← List.filterMap_eq_map]
    congr 1
    funext s
    exact s.statement_canonical
  refine ⟨(ofStatements ss).close, ?_, alike_of_statements hstatements⟩
  rw [ofSource, htokens]
  simp only
  rw [hparse]

/-- Programs that are alike take the same frames to print. -/
theorem Alike.walkFrames_eq {p p' : Program} (h : p.Alike p') (w : Walk) :
    p.walkFrames w = p'.walkFrames w := by
  have hframes (p : Program) : p.walkFrames w = w.around +
      Expr.walksFrames w ((p.definitions.map Definition.bare).map Definition.body ++
        p.expressions.map Expr.bare) := by
    have hbodies : (p.definitions.map Definition.bare).map Definition.body =
        (p.definitions.map Definition.body).map Expr.bare := by
      rw [List.map_map, List.map_map]
      rfl
    rw [hbodies, ← List.map_append, Expr.walksFrames_map_bare, walkFrames]
  rw [hframes, hframes, h.definitions, h.expressions]

/-- So a stack that serves to print the one serves to print the other. -/
theorem Alike.sourceOn_eq {p p' : Program} (h : p.Alike p') (w : Walk) (stack : Stack) :
    p.sourceOn w stack = p'.sourceOn w stack := by
  rw [sourceOn, sourceOn, h.walkFrames_eq w, h.source_eq]

/-- What can be printed is printed, or the stack has less room than the levels of the limit may take. -/
theorem Printable.printed {p : Program} {limit : Int} (h : p.Printable limit) (w : Walk)
    (stack : Stack) :
    p.sourceOn w stack = .ok p.source ∨
      p.sourceOn w stack = .error .exhausted ∧
        stack.room < (w.around + (limit.toNat * (w.node + w.arguments) + w.work) : Nat) := by
  rcases Int.lt_or_le stack.room (w.around + (limit.toNat * (w.node + w.arguments) + w.work) : Nat)
    with hshort | hroom
  · cases hheld : stack.holding (p.walkFrames w) with
    | some deeper =>
      left
      rw [sourceOn, hheld]
    | none =>
      right
      rw [sourceOn, hheld]
      exact ⟨rfl, hshort⟩
  · refine .inl (sourceOn_of_room (fun d hd => ?_) (fun e he => ?_) hroom)
    · have := h.bodies d hd
      omega
    · have := h.expressions e he
      omega

/-- The program that defines the function that adds one to its parameter. -/
def increment : Program :=
  let one := Expr.number (Number.ofMagnitude false 0x3FF0000000000000) none
  ofLists [] [⟨{ name := "f", params := ["x"] }, .binary .plus (.var "x" none) one none⟩] []

/-- Its name, its parameter and its number are such as the lexer reads, and it has two levels. -/
theorem printable_increment {limit : Int} (h : 2 ≤ limit) : increment.Printable limit := by
  refine ⟨?_, ?_, ?_, ?_⟩
  · have hf : IsName "f" := ⟨⟨'f', [], rfl, rfl, List.forall_mem_nil _⟩, by decide⟩
    have hx : IsName "x" := ⟨⟨'x', [], rfl, rfl, List.forall_mem_nil _⟩, by decide⟩
    have hone := (Number.isLiteral_ofMagnitude
      (show 0x3FF0000000000000 < Number.infinity by decide)).1
    intro s hs w hw
    obtain rfl := List.mem_singleton.mp hs
    simp only [Statement.flat, Definition.flat, Prototype.flat, Expr.flat, List.map_cons,
      List.map_nil, List.cons_append, List.nil_append, List.mem_cons, List.not_mem_nil,
      or_false] at hw
    rcases hw with rfl | rfl | rfl | rfl | rfl | rfl | rfl | rfl | rfl
    · trivial
    · exact hf
    · trivial
    · exact hx
    · trivial
    · exact hx
    · trivial
    · exact hone
    · trivial
  · intro s hs
    obtain rfl := List.mem_singleton.mp hs
    decide
  · intro d hd
    obtain rfl := List.mem_singleton.mp hd
    exact h
  · exact List.forall_mem_nil _

end Program

end Formulary
