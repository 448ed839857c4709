import Formulary.Expr.Source
import Formulary.Resolution.Basic
import Formulary.Stack

/-!
# Printing and resolving on a stack

The printer and the resolver walk through every tree of a program by recursion. They ask for no
headroom, so what they need depends on the trees alone: every level takes the frames of a node, and
those of a list of arguments besides if it is one.
-/

namespace Formulary

/-- The frames that a walk takes: around all trees, for each node, for a list of arguments besides, and
for what is done at a node. -/
structure Walk where
  around : Nat
  node : Nat
  arguments : Nat
  work : Nat

namespace Walk

/-- A node is visited by way of three functions, and arguments are printed one by one. -/
def printing : Walk := ⟨4, 3, 1, 4⟩

/-- The resolver goes through arguments in the frame of their call. -/
def resolving : Walk := ⟨2, 3, 0, 5⟩

end Walk

namespace Expr

variable (w : Walk)

mutual

/-- The frames that a walk through a tree takes at most at once. -/
def walkFrames : Expr → Nat
  | number _ _ | var _ _ => w.node + w.work
  | binary _ left right _ => w.node + max w.work (max (walkFrames left) (walkFrames right))
  | call _ arguments _ => w.node + max w.work (w.arguments + walksFrames arguments)
  | cond condition consequent alternative _ => w.node +
    max w.work (max (walkFrames condition) (max (walkFrames consequent) (walkFrames alternative)))
  | loop _ start stop none body _ => w.node +
    max w.work (max (walkFrames start) (max (walkFrames stop) (walkFrames body)))
  | loop _ start stop (some step) body _ => w.node +
    max w.work (max (walkFrames start)
      (max (walkFrames stop) (max (walkFrames step) (walkFrames body))))

/-- The frames that a walk through a list of trees takes, one after the other. -/
def walksFrames : List Expr → Nat
  | [] => 0
  | e :: rest => max (walkFrames e) (walksFrames rest)

end

/-- Under a node that takes no more than a level, a part of which each level takes so much. -/
theorem level_le {node level work part height above : Nat} (hnode : node ≤ level)
    (hpart : part ≤ height * level + work) (habove : height ≤ above) :
    node + part ≤ (1 + above) * level + work := by
  have hlevels := Nat.mul_le_mul_right level habove
  rw [Nat.add_mul, Nat.one_mul]
  omega

theorem add_max_le {node a b most : Nat} (ha : node + a ≤ most) (hb : node + b ≤ most) :
    node + max a b ≤ most := by omega

/-- A walk takes for each level no more than a node with a list of arguments. -/
theorem walkFrames_le (e : Expr) :
    e.walkFrames w ≤ e.height * (w.node + w.arguments) + w.work := by
  have hnode : w.node ≤ w.node + w.arguments := Nat.le_add_right _ _
  have hwork (above : Nat) : w.node + w.work ≤ (1 + above) * (w.node + w.arguments) + w.work :=
    level_le hnode (Nat.le_add_left _ (0 * _)) (Nat.zero_le above)
  induction e with
  | number value span => exact hwork 0
  | var name span => exact hwork 0
  | binary op left right span hleft hright =>
    exact add_max_le (hwork _) <| add_max_le (level_le hnode hleft (Nat.le_max_left _ _))
      (level_le hnode hright (Nat.le_max_right _ _))
  | call name arguments span ih =>
    have hlist : walksFrames w arguments ≤ heights arguments * (w.node + w.arguments) + w.work := by
      induction arguments with
      | nil => exact Nat.zero_le _
      | cons a rest ihrest =>
        obtain ⟨ha, hrest⟩ := List.forall_mem_cons.mp ih
        have hfirst := Nat.mul_le_mul_right (w.node + w.arguments)
          (Nat.le_max_left a.height (heights rest))
        have hothers := Nat.mul_le_mul_right (w.node + w.arguments)
          (Nat.le_max_right a.height (heights rest))
        have hrest := ihrest hrest
        exact Nat.max_le.mpr ⟨Nat.le_trans ha (Nat.add_le_add_right hfirst _),
          Nat.le_trans hrest (Nat.add_le_add_right hothers _)⟩
    refine add_max_le (hwork _) ?_
    rw [← Nat.add_assoc]
    exact level_le (Nat.le_refl _) hlist (Nat.le_refl _)
  | cond condition consequent alternative span hcondition hconsequent halternative =>
    refine add_max_le (hwork _) (add_max_le ?_ (add_max_le ?_ ?_))
    · exact level_le hnode hcondition (Nat.le_max_left _ _)
    · exact level_le hnode hconsequent (by omega)
    · exact level_le hnode halternative (by omega)
  | loop name start stop step body span hstart hstop hstep hbody =>
    cases step with
    | none =>
      refine add_max_le (hwork _) (add_max_le ?_ (add_max_le ?_ ?_))
      · exact level_le hnode hstart (Nat.le_max_left _ _)
      · exact level_le hnode hstop (by omega)
      · exact level_le hnode hbody (by omega)
    | some step =>
      refine add_max_le (hwork _) (add_max_le ?_ (add_max_le ?_ (add_max_le ?_ ?_)))
      · exact level_le hnode hstart (Nat.le_max_left _ _)
      · exact level_le hnode hstop (by omega)
      · exact level_le hnode (hstep step rfl) (by omega)
      · exact level_le hnode hbody (by omega)

/-- A list of trees takes no more than the highest of them may. -/
theorem walksFrames_le {height : Nat} {es : List Expr} (h : ∀ e ∈ es, e.height ≤ height) :
    walksFrames w es ≤ height * (w.node + w.arguments) + w.work := by
  induction es with
  | nil => exact Nat.zero_le _
  | cons e rest ih =>
    obtain ⟨he, hrest⟩ := List.forall_mem_cons.mp h
    have hlevels := Nat.mul_le_mul_right (w.node + w.arguments) he
    exact Nat.max_le.mpr ⟨Nat.le_trans (e.walkFrames_le w) (by omega), ih hrest⟩

end Expr

namespace Program

/-- The frames that a walk through a program takes. -/
def walkFrames (w : Walk) (p : Program) : Nat :=
  w.around + Expr.walksFrames w (p.definitions.map Definition.body ++ p.expressions)

/-- The canonical text of a program, if there is room on the stack to print it. -/
def sourceOn (w : Walk) (stack : Stack) (p : Program) : Except Stack.Error String :=
  match stack.holding (p.walkFrames w) with
  | some _ => .ok p.source
  | none => .error .exhausted

/-- The errors and warnings of a program, if there is room on the stack to look for them. -/
def resolveOn (w : Walk) (stack : Stack) (p : Program) : Except Stack.Error Resolution :=
  match stack.holding (p.walkFrames w) with
  | some _ => .ok p.resolve
  | none => .error .exhausted

/-- A program that is no higher than some number of levels is printed where there is room for these. -/
theorem sourceOn_of_room {w : Walk} {stack : Stack} {p : Program} {height : Nat}
    (hbodies : ∀ d ∈ p.definitions, d.body.height ≤ height)
    (hexpressions : ∀ e ∈ p.expressions, e.height ≤ height)
    (hroom : (w.around + (height * (w.node + w.arguments) + w.work) : Nat) ≤ stack.room) :
    p.sourceOn w stack = .ok p.source := by
  have htrees : ∀ e ∈ p.definitions.map Definition.body ++ p.expressions, e.height ≤ height := by
    intro e he
    rcases List.mem_append.mp he with he | he
    · obtain ⟨d, hd, rfl⟩ := List.mem_map.mp he
      exact hbodies d hd
    · exact hexpressions e he
  have hframes := Expr.walksFrames_le w htrees
  have hfits : p.walkFrames w ≤ stack.room := by
    unfold walkFrames
    omega
  obtain ⟨_, hholds, _⟩ := Stack.exists_holding hfits
  rw [sourceOn, hholds]

end Program

end Formulary
