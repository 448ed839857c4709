import Formulary.Proofs.Descent.Completeness

/-!
# The language of the parser

A token list is accepted within some nesting limit if and only if the grammar derives it and no
prototype repeats a parameter: what is accepted has been read clause by clause, and a derivation is
found again once it is settled. No token is lost: the trees flatten to the tokens of the clauses they
were read from, and only empty clauses leave nothing.
-/

namespace Formulary.Parser

/-- A prototype that says what a signature says flattens to its tokens. -/
theorem Signature.Yields.flat {s : Signature} {p : Prototype} (h : s.Yields p) :
    p.flat = s.spell false := by
  rw [s.spell_false, Prototype.flat, h.1, h.2]
  rfl

/-- A statement that says what a clause says flattens to its tokens. -/
theorem Clause.Yields.flat {k : Clause} {st : Statement} (h : k.Yields (some st)) :
    st.flat = k.spell false := by
  cases k with
  | foreign s =>
    cases st with
    | foreign p => rw [Statement.flat, Prototype.flatExtern, Signature.Yields.flat h]; rfl
    | _ => exact h.elim
  | definition s body =>
    cases st with
    | definition d => rw [Statement.flat, Definition.flat, h.1.flat, h.2]; rfl
    | _ => exact h.elim
  | formula e =>
    cases st with
    | expression x =>
      have hflat : x.flat = e.spell false := h
      rw [Statement.flat, Expr.flatStatement, hflat]
      rfl
    | _ => exact h.elim
  | empty => cases st <;> exact h.elim

/-- Just an empty clause yields nothing. -/
theorem Clause.Yields.eq_none_iff {k : Clause} {o : Option Statement} (h : k.Yields o) :
    o = none ↔ k.isEmpty = true := by
  cases k <;> cases o <;> simp_all [Clause.Yields, isEmpty]

/-- A clause yields a statement of its kind. -/
theorem Clause.Yields.kind {k : Clause} {st : Statement} (h : k.Yields (some st)) :
    st.foreign?.isSome = k.isForeign ∧ st.definition?.isSome = k.isDefinition ∧
      st.expression?.isSome = k.isFormula := by
  cases k <;> cases st <;> first | exact h.elim | exact ⟨rfl, rfl, rfl⟩

section

variable {ks : List Clause} {ss : List Statement}

/-- The statements that clauses yield flatten to their tokens. -/
theorem YieldsAll.flat (h : YieldsAll ks ss) :
    ss.map Statement.flat = (ks.filter fun k => !k.isEmpty).map (Clause.spell false) := by
  induction ks generalizing ss with
  | nil => rw [show ss = [] from h]; rfl
  | cons k ks ih =>
    obtain ⟨o, rest, hk, rfl, hrest⟩ := h
    cases o with
    | none =>
      rw [List.filter_cons_of_neg (by simp [hk.eq_none_iff.mp rfl])]
      exact ih hrest
    | some st =>
      have hne : k.isEmpty = false := by
        rw [← Bool.not_eq_true, ← hk.eq_none_iff]
        exact Option.some_ne_none st
      rw [List.filter_cons_of_pos (by simp [hne]), Option.toList_some, List.singleton_append,
        List.map_cons, List.map_cons, hk.flat, ih hrest]

/-- So do those of one kind. -/
theorem YieldsAll.flat_kind {α : Type} {part? : Statement → Option α} {flat : α → List TokenContent}
    {isKind : Clause → Bool} (hflat : ∀ st a, part? st = some a → flat a = st.flat)
    (hkind : ∀ (k : Clause) st, k.Yields (some st) → (part? st).isSome = isKind k)
    (hempty : ∀ k : Clause, k.isEmpty = true → isKind k = false) (h : YieldsAll ks ss) :
    (ss.filterMap part?).map flat = (ks.filter isKind).map (Clause.spell false) := by
  induction ks generalizing ss with
  | nil => rw [show ss = [] from h]; rfl
  | cons k ks ih =>
    obtain ⟨o, rest, hk, rfl, hrest⟩ := h
    cases o with
    | none =>
      rw [List.filter_cons_of_neg (by simp [hempty k (hk.eq_none_iff.mp rfl)])]
      exact ih hrest
    | some st =>
      rw [Option.toList_some, List.singleton_append, List.filterMap_cons]
      have hsome := hkind k st hk
      cases hpart : part? st with
      | none =>
        rw [hpart, Option.isSome_none] at hsome
        rw [List.filter_cons_of_neg (by simp [← hsome])]
        exact ih hrest
      | some a =>
        rw [hpart, Option.isSome_some] at hsome
        rw [List.filter_cons_of_pos hsome.symm, List.map_cons, List.map_cons, hflat st a hpart,
          hk.flat, ih hrest]

end

/-- Any clauses with distinct parameters fit within some nesting limit. -/
theorem exists_fits (ks : List Clause) (hdistinct : ∀ k ∈ ks, k.Distinct) :
    ∃ limit : Int, ∀ k ∈ ks.map Clause.settle, k.Fits limit := by
  induction ks with
  | nil => exact ⟨0, by simp⟩
  | cons k ks ih =>
    obtain ⟨hk, hks⟩ := List.forall_mem_cons.mp hdistinct
    obtain ⟨limit, hlimit⟩ := ih hks
    refine ⟨(max limit.toNat (k.settle.groups +
      (k.settle.statement.elim 0 Statement.height)) : Nat), ?_⟩
    rw [List.map_cons]
    refine List.forall_mem_cons.mpr ⟨⟨k.settled_settle, hk.settle, fun s hs => ?_, ?_⟩, ?_⟩
    · rw [hs, Option.elim_some]
      omega
    · omega
    · intro k' hk'
      obtain ⟨hsettled, hdistinct, hheight, hgroups⟩ := hlimit k' hk'
      refine ⟨hsettled, hdistinct, fun s hs => ?_, by omega⟩
      have := hheight s hs
      omega

/-- What the grammar derives with distinct parameters is accepted within some nesting limit. -/
theorem IsProgram.exists_parse {tokens : List Token} (h : IsProgram (tokens.map Token.content)) :
    ∃ limit p, parse tokens limit = .ok p := by
  obtain ⟨ks, hspell, hdistinct⟩ := h
  obtain ⟨limit, hfits⟩ := exists_fits ks hdistinct
  obtain ⟨ss, hparse, _⟩ := parse_finds ((spellAll_map_settle true ks).trans hspell) hfits
  exact ⟨limit, _, hparse⟩

/-- The tokens that are passed from the start to the end are all tokens. -/
theorem Cursor.Spells.all {tokens : List Token} {words : List TokenContent} {after : Cursor}
    (h : (Cursor.start tokens).Spells words after) (hend : after.rest = []) :
    words = tokens.map Token.content := by
  obtain ⟨ts, rfl, hrest, _⟩ := h
  rw [hend, List.append_nil] at hrest
  rw [← hrest]
  rfl

/-- The parser accepts a token list within some nesting limit if and only if the grammar derives it
with distinct parameters. The statements of the program flatten to the clauses of a derivation, each
to its own and all kinds in the order of the source; only empty clauses are left out. -/
theorem parse_accepts_grammar (tokens : List Token) :
    ((∃ limit p, parse tokens limit = .ok p) ↔
      ∃ ks, spellAll true ks = tokens.map Token.content ∧ ∀ k ∈ ks, k.Distinct) ∧
    ∀ limit p, parse tokens limit = .ok p → ∃ ks ss,
      spellAll true ks = tokens.map Token.content ∧ (∀ k ∈ ks, k.Distinct) ∧
      p = (Program.ofStatements ss).close ∧
      ss.map Statement.flat = (ks.filter fun k => !k.isEmpty).map (Clause.spell false) ∧
      p.externs.map Prototype.flatExtern = (ks.filter Clause.isForeign).map (Clause.spell false) ∧
      p.definitions.map Definition.flat =
        (ks.filter Clause.isDefinition).map (Clause.spell false) ∧
      p.expressions.map Expr.flatStatement =
        (ks.filter Clause.isFormula).map (Clause.spell false) := by
  have hreads (limit : Int) (p : Program) (hparse : parse tokens limit = .ok p) : ∃ ks ss,
      spellAll true ks = tokens.map Token.content ∧ (∀ k ∈ ks, k.Distinct) ∧ YieldsAll ks ss ∧
      p = (Program.ofStatements ss).close := by
    obtain ⟨ks, ss, after, hread, hend, hp⟩ := parse_reads hparse
    exact ⟨ks, ss, hread.spells.all hend, hread.distinct, hread.yields, hp⟩
  constructor
  · constructor
    · rintro ⟨limit, p, hparse⟩
      obtain ⟨ks, _, hspell, hdistinct, _⟩ := hreads limit p hparse
      exact ⟨ks, hspell, hdistinct⟩
    · exact IsProgram.exists_parse
  · intro limit p hparse
    obtain ⟨ks, ss, hspell, hdistinct, hyields, rfl⟩ := hreads limit p hparse
    refine ⟨ks, ss, hspell, hdistinct, rfl, hyields.flat, ?_, ?_, ?_⟩
    · rw [Program.close, Program.externs_ofStatements]
      refine hyields.flat_kind (fun st a ha => ?_) (fun k st hk => hk.kind.1) fun k hk => ?_
      · cases st <;> cases ha
        rfl
      · cases k <;> cases hk
        rfl
    · rw [Program.close, Program.definitions_ofStatements]
      refine hyields.flat_kind (fun st a ha => ?_) (fun k st hk => hk.kind.2.1) fun k hk => ?_
      · cases st <;> cases ha
        rfl
      · cases k <;> cases hk
        rfl
    · rw [Program.close, Program.expressions_ofStatements]
      refine hyields.flat_kind (fun st a ha => ?_) (fun k st hk => hk.kind.2.2) fun k hk => ?_
      · cases st <;> cases ha
        rfl
      · cases k <;> cases hk
        rfl

end Formulary.Parser
