import Formulary.Proofs.Evaluation.Built
import Formulary.Proofs.Resolution.Errors
import Formulary.Proofs.Source.Declared

/-!
# Spans and resolution

Where a program stands in a text matters to its resolution errors and warnings only in the places
that they name. Of its declarations, only the declared names matter to the errors, and how many
parameters the called ones have. Their order does not: suggestions are sorted, and the order of
suggestions leaves no ties between different names.
-/

namespace Formulary

open Program

namespace Resolution

/-- The order of suggestions compares any two. -/
theorem nearer_total (a b : Nat × String) : (nearer a b || nearer b a) = true := by
  simp only [nearer, Bool.or_eq_true, Bool.and_eq_true, decide_eq_true_eq, beq_iff_eq]
  rcases Nat.lt_trichotomy a.1 b.1 with h | h | h
  · exact .inl (.inl h)
  · rcases String.le_total a.2 b.2 with h' | h'
    · exact .inl (.inr ⟨h, h'⟩)
    · exact .inr (.inr ⟨h.symm, h'⟩)
  · exact .inr (.inl h)

/-- The order of suggestions is transitive. -/
theorem nearer_trans (a b c : Nat × String) (hab : nearer a b = true) (hbc : nearer b c = true) :
    nearer a c = true := by
  simp only [nearer, Bool.or_eq_true, Bool.and_eq_true, decide_eq_true_eq, beq_iff_eq] at *
  rcases hab with hab | ⟨hab, hab'⟩
  · rcases hbc with hbc | ⟨hbc, _⟩
    · exact .inl (Nat.lt_trans hab hbc)
    · exact .inl (by rw [← hbc]; exact hab)
  · rcases hbc with hbc | ⟨hbc, hbc'⟩
    · exact .inl (by rw [hab]; exact hbc)
    · exact .inr ⟨hab.trans hbc, String.le_trans hab' hbc'⟩

/-- Suggestions that stand in either order are the same. -/
theorem nearer_antisymm (a b : Nat × String) (hab : nearer a b = true) (hba : nearer b a = true) :
    a = b := by
  simp only [nearer, Bool.or_eq_true, Bool.and_eq_true, decide_eq_true_eq, beq_iff_eq] at *
  rcases hab with hab | ⟨hab, hab'⟩
  · omega
  · rcases hba with hba | ⟨_, hba'⟩
    · omega
    · exact Prod.ext hab (String.le_antisymm hab' hba')

/-- The order of the candidates does not matter to suggestions. -/
theorem similarNames_perm {candidates candidates' : List String}
    (h : candidates.Perm candidates') (name : String) (distance : Int) :
    similarNames name candidates distance = similarNames name candidates' distance := by
  have hsorted (l : List (Nat × String)) : (l.mergeSort nearer).Pairwise (nearer · · = true) :=
    List.pairwise_mergeSort nearer_trans nearer_total l
  have hscored := h.map fun c => (editDistance name c, c)
  have hperm := (List.mergeSort_perm _ nearer).trans
    (hscored.trans (List.mergeSort_perm _ nearer).symm)
  have heq := hperm.eq_of_pairwise (fun a b _ _ => nearer_antisymm a b) (hsorted _) (hsorted _)
  unfold similarNames
  simp only
  rw [heq]

end Resolution

/-- A program that was built lists each declared name once. -/
theorem Program.Built.names_nodup {p : Program} (h : p.Built) : p.declarations.names.Nodup := by
  have hinsert {t : NameTable Declaration} (ht : t.names.Nodup) (name : String) (d : Declaration) :
      (t.insert name d).names.Nodup := by
    rw [NameTable.names_insert]
    split
    · exact ht
    · next hname =>
      refine List.nodup_append.mpr ⟨ht, by simp, fun other hother _ hlast => ?_⟩
      rintro rfl
      exact hname (List.mem_singleton.mp hlast ▸ hother)
  induction h with
  | empty => exact List.nodup_nil
  | close _ ih => exact ih
  | extend _ s ih =>
    cases s with
    | foreign q => exact hinsert ih q.name _
    | definition d => exact hinsert ih d.name _
    | expression e => exact ih

/-- Programs that declare the same names list the same names. -/
theorem Program.Built.names_perm {p q : Program} (hp : p.Built) (hq : q.Built)
    (h : ∀ name, p.declared name = none ↔ q.declared name = none) :
    p.declarations.names.Perm q.declarations.names := by
  rw [List.perm_ext_iff_of_nodup hp.names_nodup hq.names_nodup]
  intro name
  have hnames (p : Program) : name ∉ p.declarations.names ↔ p.declared name = none := by
    rw [← NameTable.get?_eq_none_iff, declared, Option.map_eq_none_iff]
    rfl
  rw [← Decidable.not_iff_not, hnames, hnames, h name]

/-! ### Names that are called -/

namespace Expr

mutual

/-- The names of the functions that a tree calls. -/
def callees : Expr → List String
  | number _ _ | var _ _ => []
  | binary _ left right _ => callees left ++ callees right
  | call name arguments _ => name :: calleesAll arguments
  | cond condition consequent alternative _ =>
    callees condition ++ (callees consequent ++ callees alternative)
  | loop _ start stop none body _ => callees start ++ (callees stop ++ callees body)
  | loop _ start stop (some step) body _ =>
    callees start ++ (callees stop ++ (callees step ++ callees body))

/-- The names of the functions that the trees of a list call. -/
def calleesAll : List Expr → List String
  | [] => []
  | e :: rest => callees e ++ calleesAll rest

end

/-- The names that the trees of a list call are those that they call one by one. -/
theorem calleesAll_eq_flatMap (es : List Expr) : calleesAll es = es.flatMap callees := by
  induction es with
  | nil => rfl
  | cons e rest ih => rw [calleesAll, ih, List.flatMap_cons]

end Expr

/-- The names of the functions that the bodies and the formulas of a program call. -/
def Program.callees (p : Program) : List String :=
  p.definitions.flatMap (fun d => d.body.callees) ++ p.expressions.flatMap Expr.callees

/-! ### Errors -/

/-- A resolution error without its location, and with its node without spans. -/
def ResolutionError.bare (e : ResolutionError) : ResolutionError :=
  { e with location := none, node := e.node.map Expr.bare }

/-- A warning without its location. -/
def ResolutionWarning.bare (w : ResolutionWarning) : ResolutionWarning := { w with location := none }

namespace Resolution

/-- Two programs declare a name with as many parameters, or not at all. -/
def SameArity (p q : Program) (name : String) : Prop :=
  (q.prototype? name).map Prototype.arity = (p.prototype? name).map Prototype.arity

section

variable {p q : Program} (hnames : p.declarations.names.Perm q.declarations.names)

include hnames

/-- The error of a call does not depend on spans but for its place. -/
theorem callErrors_bare (function : Option String) (node : Expr) (name : String) (arity : Nat)
    (same : SameArity p q name) :
    (callErrors q function node.bare name arity).map ResolutionError.bare =
      (callErrors p function node name arity).map ResolutionError.bare := by
  have hsimilar := similarNames_perm hnames name 2
  unfold SameArity at same
  unfold callErrors target
  cases hp : p.prototype? name with
  | none =>
    rw [hp, Option.map_none, Option.map_eq_none_iff] at same
    simp [same, hsimilar, ResolutionError.bare]
  | some f =>
    rw [hp, Option.map_some, Option.map_eq_some_iff] at same
    obtain ⟨f', hq, harity⟩ := same
    rw [hq]
    simp only [harity]
    by_cases hgot : f.arity = arity
    · rw [if_pos hgot, if_pos hgot]
    · rw [if_neg hgot, if_neg hgot]
      simp [ResolutionError.bare]

/-- The errors of a tree do not depend on spans but for their places. -/
theorem exprErrors_bare (function : Option String) (scope : List String) (e : Expr)
    (same : ∀ name ∈ e.callees, SameArity p q name) :
    (exprErrors q function scope e.bare).map ResolutionError.bare =
      (exprErrors p function scope e).map ResolutionError.bare := by
  induction e generalizing scope with
  | number value span => rfl
  | var name span =>
    simp only [Expr.bare, exprErrors]
    split <;> rfl
  | binary op left right span hleft hright =>
    rw [Expr.callees, List.forall_mem_append] at same
    obtain ⟨sameleft, sameright⟩ := same
    simp only [Expr.bare, exprErrors, List.map_append, hleft _ sameleft, hright _ sameright]
  | call name arguments span ih =>
    rw [Expr.callees, List.forall_mem_cons] at same
    obtain ⟨samename, same⟩ := same
    have harguments : (exprsErrors q function scope (Expr.bares arguments)).map
        ResolutionError.bare = (exprsErrors p function scope arguments).map ResolutionError.bare := by
      induction arguments with
      | nil => rfl
      | cons a rest ihrest =>
        obtain ⟨ha, hrest⟩ := List.forall_mem_cons.mp ih
        rw [Expr.calleesAll, List.forall_mem_append] at same
        obtain ⟨samea, samerest⟩ := same
        simp only [Expr.bares, exprsErrors, List.map_append, ha _ samea, ihrest hrest samerest]
    have hcall := callErrors_bare hnames function (.call name arguments span) name
      arguments.length samename
    have hlength : (Expr.bares arguments).length = arguments.length := by
      rw [Expr.bares_eq_map, List.length_map]
    simp only [Expr.bare, exprErrors, List.map_append, harguments, hlength]
    rw [← hcall]
    rfl
  | cond condition consequent alternative span hc ht hf =>
    simp only [Expr.callees, List.forall_mem_append] at same
    obtain ⟨samec, samet, samef⟩ := same
    simp only [Expr.bare, exprErrors, List.map_append, hc _ samec, ht _ samet, hf _ samef]
  | loop name start stop step body span h1 h2 h3 h4 =>
    cases step with
    | none =>
      simp only [Expr.callees, List.forall_mem_append] at same
      obtain ⟨same1, same2, same4⟩ := same
      simp only [Expr.bare, exprErrors, List.map_append, h1 _ same1, h2 _ same2, h4 _ same4]
    | some s =>
      simp only [Expr.callees, List.forall_mem_append] at same
      obtain ⟨same1, same2, same3, same4⟩ := same
      simp only [Expr.bare, exprErrors, List.map_append, h1 _ same1, h2 _ same2,
        h3 s rfl _ same3, h4 _ same4]

/-- Trees that differ in their spans only have the same errors but for their places. -/
theorem exprErrors_of_bare_eq (function : Option String) (scope : List String) {e e' : Expr}
    (h : e.bare = e'.bare) (same : ∀ name ∈ e.callees, SameArity p q name) :
    (exprErrors q function scope e').map ResolutionError.bare =
      (exprErrors p function scope e).map ResolutionError.bare := by
  have hself := exprErrors_bare (.refl q.declarations.names) function scope e' fun _ _ => rfl
  rw [← exprErrors_bare hnames function scope e same, h, hself]

end

/-- Elements with the same image that give the same give the same altogether. -/
theorem map_flatMap_of_map_eq {α β γ δ : Type} {f : α → β} {g g' : α → List γ} {k : γ → δ}
    {l l' : List α} (h : l.map f = l'.map f)
    (hg : ∀ a ∈ l, ∀ a', f a = f a' → (g' a').map k = (g a).map k) :
    (l'.flatMap g').map k = (l.flatMap g).map k := by
  induction l generalizing l' with
  | nil =>
    cases l' with
    | nil => rfl
    | cons a' rest' => contradiction
  | cons a rest ih =>
    cases l' with
    | nil => contradiction
    | cons a' rest' =>
      obtain ⟨ha, hrest⟩ := List.cons.inj h
      obtain ⟨hfirst, hg⟩ := List.forall_mem_cons.mp hg
      rw [List.flatMap_cons, List.flatMap_cons, List.map_append, List.map_append, hfirst a' ha,
        ih hrest hg]

/-- Programs of the same statements that declare the same names, and those that are called with as
many parameters, have the same errors but for their places. -/
theorem errors_of_same {p q : Program} (hnames : p.declarations.names.Perm q.declarations.names)
    (same : ∀ name ∈ p.callees, SameArity p q name)
    (hdefinitions : p.definitions.map Definition.bare = q.definitions.map Definition.bare)
    (hexpressions : p.expressions.map Expr.bare = q.expressions.map Expr.bare) :
    q.resolve.errors.map ResolutionError.bare = p.resolve.errors.map ResolutionError.bare := by
  obtain ⟨samebodies, sameformulas⟩ := List.forall_mem_append.mp same
  rw [List.forall_mem_flatMap] at samebodies sameformulas
  rw [Program.errors_resolve, Program.errors_resolve, errorsOf, errorsOf, List.map_append,
    List.map_append]
  congr 1
  · apply map_flatMap_of_map_eq hdefinitions
    intro d hmem d' hd
    have hprototype : d.prototype.bare = d'.prototype.bare := congrArg Definition.prototype hd
    obtain ⟨hname, hparams⟩ := Prototype.eq_of_bare_eq hprototype
    rw [Definition.name, Definition.name, hname, hparams]
    exact exprErrors_of_bare_eq hnames _ _ (congrArg Definition.body hd) (samebodies d hmem)
  · apply map_flatMap_of_map_eq hexpressions
    intro e hmem e' he
    exact exprErrors_of_bare_eq hnames none [] he (sameformulas e hmem)

/-! ### Warnings -/

/-- Definitions that differ in their spans only have the same warnings but for their places. -/
theorem redefinitions_of_same {ds ds' : List Definition} (seen : List String)
    (h : ds.map Definition.bare = ds'.map Definition.bare) :
    (redefinitions seen ds').map ResolutionWarning.bare =
      (redefinitions seen ds).map ResolutionWarning.bare := by
  induction ds generalizing seen ds' with
  | nil =>
    cases ds' with
    | nil => rfl
    | cons d' rest' => contradiction
  | cons d rest ih =>
    cases ds' with
    | nil => contradiction
    | cons d' rest' =>
      obtain ⟨hd, hrest⟩ := List.cons.inj h
      have hname : d.name = d'.name :=
        (Prototype.eq_of_bare_eq (congrArg Definition.prototype hd)).1
      simp only [redefinitions, hname]
      split
      · rw [List.map_cons, List.map_cons, ih _ hrest]
        rfl
      · exact ih _ hrest

/-- So do prototypes. -/
theorem conflicts_of_same {qs qs' : List Prototype} (seen : NameTable Nat)
    (h : qs.map Prototype.bare = qs'.map Prototype.bare) :
    (conflicts seen qs').map ResolutionWarning.bare =
      (conflicts seen qs).map ResolutionWarning.bare := by
  induction qs generalizing seen qs' with
  | nil =>
    cases qs' with
    | nil => rfl
    | cons q' rest' => contradiction
  | cons q rest ih =>
    cases qs' with
    | nil => contradiction
    | cons q' rest' =>
      obtain ⟨hq, hrest⟩ := List.cons.inj h
      obtain ⟨hname, hparams⟩ := Prototype.eq_of_bare_eq hq
      have harity : q.arity = q'.arity := congrArg List.length hparams
      simp only [conflicts, hname, harity]
      split
      · exact ih _ hrest
      · split
        · exact ih _ hrest
        · rw [List.map_cons, List.map_cons, ih _ hrest]
          rfl

/-- Programs of the same statements have the same warnings but for their places. -/
theorem warnings_of_same {p q : Program}
    (hexterns : p.externs.map Prototype.bare = q.externs.map Prototype.bare)
    (hdefinitions : p.definitions.map Definition.bare = q.definitions.map Definition.bare) :
    q.resolve.warnings.map ResolutionWarning.bare =
      p.resolve.warnings.map ResolutionWarning.bare := by
  have hprototypes (ds : List Definition) : (ds.map Definition.prototype).map Prototype.bare =
      (ds.map Definition.bare).map Definition.prototype := by
    rw [List.map_map, List.map_map]
    rfl
  rw [Program.warnings_resolve, Program.warnings_resolve, warningsOf, warningsOf, List.map_append,
    List.map_append, redefinitions_of_same [] hdefinitions]
  congr 1
  apply conflicts_of_same
  rw [List.map_append, List.map_append, hprototypes, hprototypes, hexterns, hdefinitions]

end Resolution

end Formulary
