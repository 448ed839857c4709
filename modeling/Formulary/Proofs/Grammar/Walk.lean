import Formulary.Proofs.Grammar.Nodes
import Mathlib.Data.List.Induction
import Mathlib.Data.List.Nodup

/-!
# Walking through a tree

The walk keeps one stack for all levels of a tree. It ends because every step leaves one node less on
the stack, which is what `walkStack` recurses on. What it still has to yield is told by the stack
alone: the preorders of its trees, one after the other (`walkStack_eq`). So a tree is yielded before
its parts, and the parts one after the other, each with all of its own.

A node may occur in a tree more than once, so occurrences are told apart by their paths. The walk goes
through the paths of a tree in lexicographic order (`exists_paths`): it meets every path once, and a
path before all that lead further down.
-/

namespace Formulary.Expr

/-- The preorders of two lists of trees. -/
theorem preorders_append (es fs : List Expr) :
    preorders (es ++ fs) = preorders es ++ preorders fs := by
  induction es with
  | nil => rfl
  | cons e rest ih => rw [List.cons_append, preorders, preorders, ih, List.append_assoc]

/-- The trees of a stack are walked through in preorder, from the top. -/
theorem walkStack_eq (stack : List Expr) : walkStack stack = preorders stack := by
  fun_induction walkStack stack with
  | case1 => rfl
  | case2 e stack ih =>
    rw [ih, preorders_append, preorders, preorder_eq, List.cons_append]

/-- A walk is a preorder. -/
theorem walk_eq_preorder (e : Expr) : e.walk = e.preorder := by
  rw [walk, walkStack_eq, preorders, preorders, List.append_nil]

/-- The trees of a list are walked through one after the other. -/
theorem preorders_eq_flatMap (es : List Expr) : preorders es = es.flatMap walk := by
  induction es with
  | nil => rfl
  | cons e rest ih => rw [preorders, List.flatMap_cons, walk_eq_preorder, ih]

/-! ### Paths -/

/-- The node at the end of a path from the root. A path says of one node after the other into which
of its parts it goes. -/
def node? : Expr → List Nat → Option Expr
  | e, [] => some e
  | e, index :: path => e.children[index]?.bind fun part => part.node? path

/-- The node at the end of a path that begins with the choice of one of several trees. -/
def nodeAmong? (es : List Expr) : List Nat → Option Expr
  | [] => none
  | index :: path => es[index]?.bind fun e => e.node? path

/-- Paths in lexicographic order: all that lead to a node, and the given nodes are at their ends. -/
structure LeadTo (node? : List Nat → Option Expr) (paths : List (List Nat)) (nodes : List Expr) :
    Prop where
  ends : nodes.map some = paths.map node?
  all : ∀ path, (node? path).isSome = true → path ∈ paths
  sorted : paths.Pairwise (· < ·)

/-- A path to a node among trees goes into one of them. -/
theorem lt_length_of_nodeAmong? {es : List Expr} {index : Nat} {path : List Nat}
    (h : (nodeAmong? es (index :: path)).isSome = true) : index < es.length := by
  rw [nodeAmong?] at h
  by_contra hlast
  rw [List.getElem?_eq_none (Nat.not_lt.mp hlast)] at h
  contradiction

namespace LeadTo

variable {paths : List (List Nat)} {nodes : List Expr}

/-- The paths in order are those that lead to a node. -/
theorem mem_iff {node? : List Nat → Option Expr} (h : LeadTo node? paths nodes) (path : List Nat) :
    path ∈ paths ↔ (node? path).isSome = true := by
  refine ⟨fun hpath => ?_, h.all path⟩
  have hend : node? path ∈ nodes.map some := h.ends ▸ List.mem_map_of_mem hpath
  obtain ⟨node, _, hnode⟩ := List.mem_map.mp hend
  rw [← hnode, Option.isSome_some]

/-- One more tree behind others is gone into by the paths with its index. -/
theorem append {es : List Expr} {e : Expr} {morePaths : List (List Nat)} {moreNodes : List Expr}
    (h : LeadTo (nodeAmong? es) paths nodes) (h' : LeadTo e.node? morePaths moreNodes) :
    LeadTo (nodeAmong? (es ++ [e])) (paths ++ morePaths.map (es.length :: ·))
      (nodes ++ moreNodes) := by
  have hbefore {index : Nat} (hindex : index < es.length) (path : List Nat) :
      nodeAmong? (es ++ [e]) (index :: path) = nodeAmong? es (index :: path) := by
    rw [nodeAmong?, nodeAmong?, List.getElem?_append_left hindex]
  have hlast (path : List Nat) : nodeAmong? (es ++ [e]) (es.length :: path) = e.node? path := by
    rw [nodeAmong?, List.getElem?_concat_length, Option.bind_some]
  have hpaths {path : List Nat} (hpath : path ∈ paths) :
      ∃ index rest, path = index :: rest ∧ index < es.length := by
    have hsome := (h.mem_iff path).mp hpath
    cases path with
    | nil => contradiction
    | cons index rest => exact ⟨index, rest, rfl, lt_length_of_nodeAmong? hsome⟩
  constructor
  · rw [List.map_append, List.map_append, h.ends, h'.ends, List.map_map]
    congr 1
    · refine List.map_congr_left fun path hpath => ?_
      obtain ⟨index, rest, rfl, hindex⟩ := hpaths hpath
      exact (hbefore hindex rest).symm
    · exact List.map_congr_left fun path _ => (hlast path).symm
  · intro path hsome
    cases path with
    | nil => contradiction
    | cons index rest =>
      have hindex := lt_length_of_nodeAmong? hsome
      rw [List.length_append, List.length_singleton] at hindex
      rcases Nat.lt_succ_iff_lt_or_eq.mp hindex with hindex | rfl
      · rw [hbefore hindex] at hsome
        exact List.mem_append_left _ (h.all _ hsome)
      · rw [hlast] at hsome
        exact List.mem_append_right _ (List.mem_map_of_mem (h'.all rest hsome))
  · refine List.pairwise_append.mpr ⟨h.sorted, ?_, fun path hpath path' hpath' => ?_⟩
    · refine h'.sorted.map _ fun path path' hlt => ?_
      exact List.cons_lt_cons_iff.mpr (.inr ⟨rfl, hlt⟩)
    · obtain ⟨index, rest, rfl, hindex⟩ := hpaths hpath
      obtain ⟨rest', _, rfl⟩ := List.mem_map.mp hpath'
      exact List.cons_lt_cons_iff.mpr (.inl hindex)

/-- The paths of several trees are those of each tree, behind its index. -/
theorem exists_among {es : List Expr} (h : ∀ e ∈ es, ∃ paths, LeadTo e.node? paths e.preorder) :
    ∃ paths, LeadTo (nodeAmong? es) paths (preorders es) := by
  induction es using List.reverseRecOn with
  | nil =>
    refine ⟨[], rfl, fun path hsome => ?_, .nil⟩
    cases path <;> contradiction
  | append_singleton es e ih =>
    obtain ⟨paths, hpaths⟩ := ih fun c hc => h c (List.mem_append_left _ hc)
    obtain ⟨morePaths, hmore⟩ := h e (List.mem_append_right _ List.mem_cons_self)
    rw [preorders_append, preorders, preorders, List.append_nil]
    exact ⟨_, hpaths.append hmore⟩

end LeadTo

/-- The preorder of a tree goes along its paths in lexicographic order. -/
theorem exists_paths (e : Expr) : ∃ paths, LeadTo e.node? paths e.preorder := by
  induction e using parts_induct with
  | h e ih =>
    obtain ⟨paths, hparts⟩ := LeadTo.exists_among ih
    have hdown (index : Nat) (path : List Nat) :
        e.node? (index :: path) = nodeAmong? e.children (index :: path) := rfl
    have hcons {path : List Nat} (hpath : path ∈ paths) : ∃ index rest, path = index :: rest := by
      have hsome := (hparts.mem_iff path).mp hpath
      cases path with
      | nil => contradiction
      | cons index rest => exact ⟨index, rest, rfl⟩
    refine ⟨[] :: paths, ?_, fun path hsome => ?_, ?_⟩
    · rw [preorder_eq, List.map_cons, List.map_cons, hparts.ends]
      congr 1
      refine List.map_congr_left fun path hpath => ?_
      obtain ⟨index, rest, rfl⟩ := hcons hpath
      exact (hdown index rest).symm
    · cases path with
      | nil => exact List.mem_cons_self
      | cons index rest => exact List.mem_cons_of_mem _ (hparts.all _ hsome)
    · refine List.pairwise_cons.mpr ⟨fun path hpath => ?_, hparts.sorted⟩
      obtain ⟨index, rest, rfl⟩ := hcons hpath
      exact List.nil_lt_cons index rest

/-- A path that goes on leads through the node at the end of its beginning. -/
theorem node?_append (e : Expr) (path more : List Nat) :
    e.node? (path ++ more) = (e.node? path).bind fun node => node.node? more := by
  induction path generalizing e with
  | nil => rfl
  | cons index path ih =>
    rw [List.cons_append, node?, node?]
    cases e.children[index]? with
    | none => rfl
    | some part => exact ih part

/-- A path comes before those that go on from it. -/
theorem lt_append_singleton (path : List Nat) (index : Nat) : path < path ++ [index] := by
  induction path with
  | nil => exact List.nil_lt_cons index []
  | cons first path ih => exact List.cons_lt_cons_iff.mpr (.inr ⟨rfl, ih⟩)

/-- In the paths of a tree in lexicographic order, the path to the node around a node comes before the
path to the node. -/
theorem LeadTo.mem_before {e : Expr} {nodes : List Expr} {before behind : List (List Nat)}
    {path : List Nat} {index : Nat}
    (h : LeadTo e.node? (before ++ (path ++ [index]) :: behind) nodes) : path ∈ before := by
  have hsome : (e.node? path).isSome = true := by
    have hpart := (h.mem_iff _).mp (List.mem_append_right before List.mem_cons_self)
    rw [node?_append] at hpart
    cases hnode : e.node? path with
    | none =>
      rw [hnode] at hpart
      contradiction
    | some node => rfl
  have hlt := lt_append_singleton path index
  obtain ⟨_, hbehind, _⟩ := List.pairwise_append.mp h.sorted
  rcases List.mem_append.mp (h.all path hsome) with hmem | hmem
  · exact hmem
  · rcases List.mem_cons.mp hmem with heq | hmem
    · rw [← heq] at hlt
      exact absurd hlt (List.lt_irrefl path)
    · have hgt := (List.pairwise_cons.mp hbehind).1 path hmem
      exact absurd hlt (List.lt_asymm hgt)

/-- The walk through a tree is its preorder. It yields the tree and then walks through its parts, one
after the other in the order in which they are written. So it yields what stands at the end of every
path from the root, each path once, and the path to a node comes behind the path to the node
around it. -/
theorem walk_is_preorder (e : Expr) :
    e.walk = e :: e.children.flatMap walk ∧
    ∃ paths : List (List Nat), e.walk.map some = paths.map e.node? ∧
      (∀ path, path ∈ paths ↔ (e.node? path).isSome = true) ∧
      paths.Nodup ∧
      ∀ before path index behind, paths = before ++ (path ++ [index]) :: behind → path ∈ before := by
  refine ⟨?_, ?_⟩
  · rw [walk_eq_preorder, preorder_eq, preorders_eq_flatMap]
  · obtain ⟨paths, hpaths⟩ := e.exists_paths
    refine ⟨paths, ?_, hpaths.mem_iff, ?_, ?_⟩
    · rw [walk_eq_preorder, hpaths.ends]
    · refine hpaths.sorted.imp fun hlt => ?_
      rintro rfl
      exact List.lt_irrefl _ hlt
    · rintro before path index behind rfl
      exact hpaths.mem_before

end Formulary.Expr
