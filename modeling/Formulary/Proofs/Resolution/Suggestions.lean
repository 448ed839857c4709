import Formulary.Proofs.Resolution.EditDistance
import Formulary.Proofs.Resolution.Spans
import Mathlib

/-!
# The nearest declared names

A call to a name that is not declared draws suggestions of declared names. Which names are near is
said by the least number of edits (`leastEdits`), whatever way it is computed in, and equally near
names are ordered by their characters. This is a strict order of names (`Before`). The suggestions are
sorted by pairs of distances and names before the far ones are dropped, and a table lists no name
twice, so the order of the pairs is the order of the names.
-/

namespace Formulary.Resolution

/-- The least number of edits that turn one text into the other. -/
noncomputable def leastEdits (a b : String) : Nat := sInf {n | Edits n a.toList b.toList}

/-- The edit distance is the least number of edits. -/
theorem editDistance_eq_leastEdits (a b : String) : editDistance a b = leastEdits a b :=
  (isLeast_editDistance a b).csInf_eq.symm

/-- A name comes before another among the names that resemble a given one: it takes fewer edits, or as
many, and comes first by its code points. -/
def Before (name a b : String) : Prop :=
  leastEdits name a < leastEdits name b ∨ leastEdits name a = leastEdits name b ∧ a < b

/-- A name that comes before another takes no more edits. -/
theorem Before.le {name a b : String} (h : Before name a b) :
    leastEdits name a ≤ leastEdits name b := by
  rcases h with hlt | ⟨heq, _⟩
  · exact Nat.le_of_lt hlt
  · exact Nat.le_of_eq heq

/-- Of two names only one comes before the other. -/
theorem Before.asymm {name a b : String} (h : Before name a b) : ¬ Before name b a := by
  intro h'
  rcases h with hlt | ⟨heq, hlt⟩
  · exact absurd h'.le (Nat.not_le.mpr hlt)
  · rcases h' with hlt' | ⟨_, hlt'⟩
    · exact absurd heq.symm (Nat.ne_of_lt hlt')
    · exact String.lt_asymm hlt hlt'

/-- No name comes before itself. -/
theorem Before.ne {name a b : String} (h : Before name a b) : a ≠ b := by
  rintro rfl
  exact h.asymm h

/-- Different pairs of a distance and a name are ordered as the names are. -/
theorem before_of_nearer {name : String} {s t : Nat × String} (hs : s.1 = editDistance name s.2)
    (ht : t.1 = editDistance name t.2) (h : nearer s t = true) (hne : s ≠ t) :
    Before name s.2 t.2 := by
  simp only [nearer, Bool.or_eq_true, Bool.and_eq_true, decide_eq_true_eq, beq_iff_eq] at h
  rw [Before, ← editDistance_eq_leastEdits, ← editDistance_eq_leastEdits, ← hs, ← ht]
  rcases h with hlt | ⟨hdistance, hle⟩
  · exact .inl hlt
  · refine .inr ⟨hdistance, ?_⟩
    by_contra hlt
    exact hne (Prod.ext hdistance (String.le_antisymm hle (String.not_lt.mp hlt)))

section

variable {name other : String} {candidates : List String} {distance : Int}

/-- The similar names are the candidates within the distance. -/
theorem mem_similarNames : other ∈ similarNames name candidates distance ↔
    other ∈ candidates ∧ (leastEdits name other : Int) ≤ distance := by
  rw [← editDistance_eq_leastEdits]
  simp only [similarNames, List.mem_map, List.mem_filter, List.mem_mergeSort, decide_eq_true_eq]
  constructor
  · rintro ⟨_, ⟨⟨c, hc, rfl⟩, hnear⟩, rfl⟩
    exact ⟨hc, hnear⟩
  · rintro ⟨hc, hnear⟩
    exact ⟨_, ⟨⟨other, hc, rfl⟩, hnear⟩, rfl⟩

/-- The similar names are in order, if no candidate stands twice. -/
theorem similarNames_pairwise (h : candidates.Nodup) (name : String) (distance : Int) :
    (similarNames name candidates distance).Pairwise (Before name) := by
  let score (c : String) : Nat × String := (editDistance name c, c)
  have hsorted : ((candidates.map score).mergeSort nearer).Pairwise (nearer · · = true) :=
    List.pairwise_mergeSort nearer_trans nearer_total _
  have hdistinct : ((candidates.map score).mergeSort nearer).Nodup :=
    (List.mergeSort_perm _ _).nodup_iff.mpr
      (h.map fun _ _ hscores => (Prod.mk.inj hscores).2)
  have hscored {s : Nat × String} (hs : s ∈ (candidates.map score).mergeSort nearer) :
      s.1 = editDistance name s.2 := by
    obtain ⟨c, _, rfl⟩ := List.mem_map.mp (List.mem_mergeSort.mp hs)
    rfl
  have hbefore : ((candidates.map score).mergeSort nearer).Pairwise
      fun s t => Before name s.2 t.2 :=
    (hsorted.and hdistinct).imp_of_mem fun hs ht ⟨hnearer, hne⟩ =>
      before_of_nearer (hscored hs) (hscored ht) hnearer hne
  exact (hbefore.filter _).map Prod.snd fun _ _ hst => hst

end

/-- What is left out behind the first names in order comes before none of them. -/
theorem not_before_of_mem_take {name other listed : String} {near : List String} {n : Nat}
    (h : near.Pairwise (Before name)) (hother : other ∈ near) (homitted : other ∉ near.take n)
    (hlisted : listed ∈ near.take n) : ¬ Before name other listed := by
  rw [← List.take_append_drop n near] at h hother
  have hdrop := (List.mem_append.mp hother).resolve_left homitted
  exact ((List.pairwise_append.mp h).2.2 listed hlisted other hdrop).asymm

end Formulary.Resolution

namespace Formulary

open Resolution

/-- The names with a prototype are the listed ones. -/
theorem Program.mem_names_iff (p : Program) (name : String) :
    name ∈ p.declarations.names ↔ p.prototype? name ≠ none := by
  rw [← Decidable.not_iff_not, ← NameTable.get?_eq_none_iff, not_not, Program.prototype?,
    Option.map_eq_none_iff]
  rfl

namespace Resolver

/-- A call to a name that is not declared is refused with suggestions of the nearest declared names.
Of the declared names that two edits at most lead to, in the order of the least number of edits and
then of their characters and each of them once, the first three are suggested, or all if there are
fewer; behind them the declaration and the definition of the name are suggested. A declared name that
is left out comes before none of those that are suggested. -/
theorem nearest_names_are_suggested (r : Resolver) (hbuilt : r.program.Built) {name : String}
    (hname : r.program.prototype? name = none) (arguments : List Expr) (span : Option Span) :
    ∃ (e : ResolutionError) (near : List String),
      r.resolveCall (.call name arguments span) name arguments.length = .error e ∧
      e.cause = .unknownFunction name near ∧
      (∀ other, other ∈ near ↔ r.program.prototype? other ≠ none ∧ leastEdits name other ≤ 2) ∧
      near.Pairwise (Before name) ∧ near.Nodup ∧
      e.diagnostic.suggestions =
        (near.take 3).map (fun other => s!"Did you mean '{other}'?") ++
          [s!"Declare it with 'extern {name}(...);'", s!"Define it with 'def {name}(...) ...;'"] ∧
      ∀ other, r.program.prototype? other ≠ none → other ∉ near.take 3 →
        ∀ listed ∈ near.take 3, ¬ Before name other listed := by
  have hnear (other : String) : other ∈ similarNames name r.program.declarations.names ↔
      r.program.prototype? other ≠ none ∧ leastEdits name other ≤ 2 := by
    rw [mem_similarNames, Program.mem_names_iff]
    exact and_congr_right fun _ => Int.ofNat_le
  have hsorted := similarNames_pairwise hbuilt.names_nodup name 2
  have hrefused : r.resolveCall (.call name arguments span) name arguments.length =
      .error ⟨.unknownFunction name (similarNames name r.program.declarations.names),
        span.map Span.first, some (.call name arguments span), r.function⟩ := by
    simp only [resolveCall, target, hname]
    rfl
  refine ⟨_, _, hrefused, rfl, hnear, hsorted, ?_, rfl, fun other hother homitted listed hlisted => ?_⟩
  · exact hsorted.imp Before.ne
  · by_cases hother' : other ∈ similarNames name r.program.declarations.names
    · exact not_before_of_mem_take hsorted hother' homitted hlisted
    · -- it takes more edits than any name that is suggested
      intro hbefore
      obtain ⟨_, hlisted⟩ := (hnear listed).mp (List.mem_of_mem_take hlisted)
      exact hother' ((hnear other).mpr ⟨hother, hbefore.le.trans hlisted⟩)

/-- Of four names near `fib` the one that takes two edits is left out, and so is a name that takes
more; those that take one edit are suggested in the order of their characters. -/
theorem nearest_of_five_names :
    let p : Program := .ofStatements (["fob", "bif", "fibs", "factorial", "fit"].map fun name =>
      .foreign ⟨name, [], none⟩)
    let r : Resolver := { program := p }
    p.Built ∧ p.prototype? "fib" = none ∧
    ∃ e, r.resolveCall (.call "fib" [] none) "fib" 0 = .error e ∧
      e.diagnostic.suggestions = ["Did you mean 'fibs'?", "Did you mean 'fit'?",
        "Did you mean 'fob'?", "Declare it with 'extern fib(...);'",
        "Define it with 'def fib(...) ...;'"] ∧
      ¬ Before "fib" "bif" "fob" ∧ ¬ Before "fib" "factorial" "fob" := by
  intro p r
  have hbuilt : p.Built := Program.built_ofStatements _
  have hnone : p.prototype? "fib" = none := by decide
  obtain ⟨e, near, hcall, hcause, -, -, -, hsuggestions, homitted⟩ :=
    r.nearest_names_are_suggested hbuilt hnone [] none
  have hnear : near = ["fibs", "fit", "fob", "bif"] := by
    obtain rfl := Except.error.inj hcall
    obtain ⟨-, rfl⟩ := ResolutionCause.unknownFunction.inj hcause
    cbv
  subst hnear
  refine ⟨hbuilt, hnone, e, hcall, hsuggestions, ?_, ?_⟩
  · exact homitted "bif" (by decide) (by decide) "fob" (by decide)
  · exact homitted "factorial" (by decide) (by decide) "fob" (by decide)

end Resolver

end Formulary
