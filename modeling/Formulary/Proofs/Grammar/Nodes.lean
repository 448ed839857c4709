import Formulary.Expr.Basic

/-!
# The nodes of a tree

The preorder of a tree lists the tree itself and then the nodes of its parts, one part after the
other. So a fact about all nodes of a tree is a fact about the tree and about all nodes of its
parts, and induction goes from the parts of a tree to the tree.
-/

namespace Formulary.Expr

/-- Induction from the parts of a tree to the tree. -/
theorem parts_induct {motive : Expr → Prop} (h : ∀ e, (∀ c ∈ e.children, motive c) → motive e)
    (e : Expr) : motive e := by
  induction e with
  | number value span => exact h _ fun _ hc => nomatch hc
  | var name span => exact h _ fun _ hc => nomatch hc
  | binary op left right span hleft hright =>
    apply h
    simp only [children, List.forall_mem_cons]
    exact ⟨hleft, hright, List.forall_mem_nil _⟩
  | call name arguments span harguments => exact h _ harguments
  | cond condition consequent alternative span hcondition hconsequent halternative =>
    apply h
    simp only [children, List.forall_mem_cons]
    exact ⟨hcondition, hconsequent, halternative, List.forall_mem_nil _⟩
  | loop name start stop step body span hstart hstop hstep hbody =>
    apply h
    simp only [children, List.forall_mem_cons, List.forall_mem_append, Option.mem_toList]
    exact ⟨hstart, hstop, hstep, hbody, List.forall_mem_nil _⟩

/-- The nodes of the trees of a list are those of each tree. -/
theorem mem_preorders {node : Expr} {es : List Expr} :
    node ∈ preorders es ↔ ∃ e ∈ es, node ∈ e.preorder := by
  induction es with
  | nil => simp [preorders]
  | cons e rest ih => simp [preorders, ih]

/-- The preorder of a tree is the tree and then the preorders of its parts. -/
theorem preorder_eq (e : Expr) : e.preorder = e :: preorders e.children := by
  cases e with
  | loop name start stop step body span => cases step <;> simp [preorder, preorders, children]
  | _ => simp [preorder, preorders, children]

/-- A node of a tree is the tree itself or a node of one of its parts. -/
theorem mem_preorder {node e : Expr} :
    node ∈ e.preorder ↔ node = e ∨ ∃ c ∈ e.children, node ∈ c.preorder := by
  rw [preorder_eq, List.mem_cons, mem_preorders]

/-- A tree is one of its nodes. -/
theorem mem_preorder_self (e : Expr) : e ∈ e.preorder := mem_preorder.mpr (.inl rfl)

/-- A tree of a list has no more nodes than all trees of the list. -/
theorem size_le_sizes {e : Expr} {es : List Expr} (h : e ∈ es) : e.size ≤ sizes es := by
  induction es with
  | nil => contradiction
  | cons x rest ih =>
    rw [sizes]
    rcases List.mem_cons.mp h with rfl | h
    · exact Nat.le_add_right _ _
    · exact Nat.le_trans (ih h) (Nat.le_add_left _ _)

/-- A part has fewer nodes than the tree. -/
theorem size_lt_of_mem_children {e c : Expr} (h : c ∈ e.children) : c.size < e.size := by
  have hparts := size_le_sizes h
  rw [e.size_eq]
  exact Nat.lt_of_le_of_lt hparts (Nat.lt_add_of_pos_left Nat.one_pos)

/-- A tree has a node at least. -/
theorem size_pos (e : Expr) : 0 < e.size := by
  rw [size_eq]
  exact Nat.lt_of_lt_of_le Nat.one_pos (Nat.le_add_right _ _)

end Formulary.Expr
