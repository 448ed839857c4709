import Formulary.Parser.Machine

/-!
# The parser with its state follows the descents

A reader that starts in some nesting does what the descent for that nesting does: it comes to the
same value or the same mistake, with the cursor at the same place. And it keeps two things whatever it
comes to: the nesting it started in, and what was on record of the nodes that are there.

The heights need care. A node with parts goes on record when it is made. A leaf does not, so if its
identity was that of a node which is gone, what is on record of that one is taken for its height. That
is never too low, and it is right if nothing is on record of identities that may come again. So the
nodes that a reader hands back are the measured ones, with heights on record that are no lower, and
equal if the record was clean. Otherwise the reader may come to a mistake of nesting where the descent
comes to something else.

That makes no other difference to a later call, and a reader has enough fuel where the descent has.
-/

namespace Formulary.Parser

namespace HeightTable

/-- Nothing is on record of an identity that the next nodes may take. -/
def Clean (t : HeightTable) : Prop := ∀ e ∈ t.entries, e.1 ∉ t.free

/-- An identity was given out and is not free again. -/
def InUse (t : HeightTable) (identity : Nat) : Prop := identity < t.next ∧ identity ∉ t.free

/-- An identity that is given out is not in use. -/
theorem identity_ne_of_inUse {t : HeightTable} {identity : Nat} (h : t.InUse identity) :
    identity ≠ t.identity := by
  rintro rfl
  rcases t.identity_free_or_next with hfree | hnext
  · exact h.2 hfree
  · exact Nat.lt_irrefl _ (hnext ▸ h.1)

/-- It is in use from then on. -/
theorem inUse_leaf_identity (t : HeightTable) : t.leaf.InUse t.identity :=
  ⟨t.leaf.taken_lt _ List.mem_cons_self, by simp [leaf]⟩

theorem inUse_leaf {t : HeightTable} {identity : Nat} (h : t.InUse identity) :
    t.leaf.InUse identity :=
  ⟨Nat.lt_of_lt_of_le h.1 (Nat.le_max_left _ _), fun hfree => h.2 (List.mem_filter.mp hfree).1⟩

/-- Every height is one at least. -/
theorem one_le_height (t : HeightTable) (identity : Nat) : 1 ≤ t.height identity := by
  unfold height
  cases hlookup : t.entries.lookup identity with
  | none => exact Nat.le_refl 1
  | some h =>
    obtain ⟨before, after, hentries, _⟩ := List.lookup_eq_some_iff.mp hlookup
    exact (t.entries_lt (identity, h) (by rw [hentries]; simp)).2

/-- In a clean record a node is a leaf at first. -/
theorem Clean.height_identity {t : HeightTable} (h : t.Clean) : t.height t.identity = 1 := by
  have hnone : t.entries.lookup t.identity = none := by
    rw [List.lookup_eq_none_iff]
    intro e he
    simp only [bne_iff_ne]
    intro heq
    rcases t.identity_free_or_next with hfree | hnext
    · exact h e he (heq ▸ hfree)
    · have hlt := (t.entries_lt e he).1
      omega
  simp [height, hnone]

theorem height_record_identity (t : HeightTable) (h : Nat) (positive : 1 ≤ h) :
    (t.record h positive).height t.identity = h := by
  simp [height, record]

theorem height_record_of_inUse {t : HeightTable} {identity : Nat} (h : Nat) (positive : 1 ≤ h)
    (inUse : t.InUse identity) : (t.record h positive).height identity = t.height identity := by
  have hne : (identity == t.identity) = false := by simp [identity_ne_of_inUse inUse]
  simp [height, record, List.lookup_cons, hne]

/-- The record stays clean as nodes are made. -/
theorem Clean.leaf {t : HeightTable} (h : t.Clean) : t.leaf.Clean :=
  fun e he hfree => h e he (List.mem_filter.mp hfree).1

theorem Clean.record {t : HeightTable} (h : t.Clean) (height : Nat) (positive : 1 ≤ height) :
    (t.record height positive).Clean := by
  intro e he hfree
  obtain ⟨hfree, hne⟩ := List.mem_filter.mp hfree
  rcases List.mem_cons.mp he with rfl | he
  · simp at hne
  · exact h e he hfree

theorem clean_wiped (t : HeightTable) : t.wiped.Clean := List.forall_mem_nil _

end HeightTable

namespace State

/-- The nesting that a state is in. -/
def nesting (s : State) : Nesting :=
  { limit := s.limit, expressions := s.depth, groups := s.groups }

/-- The record is clean. -/
def Clean (s : State) : Prop := s.heights.Clean

/-- One state comes later than another: it has the same tokens, the nodes that were in use by then
still are and have the heights that they had, and a clean record is clean. -/
structure Later (s after : State) : Prop where
  tokens : after.tokens = s.tokens
  inUse : ∀ identity, s.heights.InUse identity → after.heights.InUse identity
  height : ∀ identity, s.heights.InUse identity →
    after.heights.height identity = s.heights.height identity
  clean : s.Clean → after.Clean

theorem Later.refl (s : State) : s.Later s := ⟨rfl, fun _ => id, fun _ _ => rfl, id⟩

theorem Later.trans {s t u : State} (h : s.Later t) (h' : t.Later u) : s.Later u where
  tokens := h'.tokens.trans h.tokens
  inUse i hi := h'.inUse i (h.inUse i hi)
  height i hi := (h'.height i (h.inUse i hi)).trans (h.height i hi)
  clean hclean := h'.clean (h.clean hclean)

/-- Two states that differ in nothing but the limit and what is open. -/
structure Alike (s t : State) : Prop where
  tokens : t.tokens = s.tokens
  cursor : t.cursor = s.cursor
  heights : t.heights = s.heights

theorem Alike.later {s t : State} (h : s.Alike t) : s.Later t where
  tokens := h.tokens
  inUse _ hi := h.heights ▸ hi
  height _ _ := h.heights ▸ rfl
  clean hclean := by
    unfold Clean
    rw [h.heights]
    exact hclean

/-- A state that was left behind: it comes later, the cursor is where it was or further on, and the
nesting is that in which reading began. -/
structure Leaves (s after : State) : Prop where
  later : s.Later after
  reaches : s.cursor.Reaches after.cursor
  nesting : after.nesting = s.nesting

theorem Leaves.refl (s : State) : s.Leaves s := ⟨.refl s, .refl _, rfl⟩

theorem Leaves.trans {s t u : State} (h : s.Leaves t) (h' : t.Leaves u) : s.Leaves u :=
  ⟨h.later.trans h'.later, h.reaches.trans h'.reaches, h'.nesting.trans h.nesting⟩

theorem Leaves.moved {s : State} {c : Cursor} (h : s.cursor.Reaches c) :
    s.Leaves { s with cursor := c } :=
  ⟨⟨rfl, fun _ => id, fun _ _ => rfl, id⟩, h, rfl⟩

theorem Leaves.leaf (s : State) : s.Leaves { s with heights := s.heights.leaf } :=
  ⟨⟨rfl, fun _ => HeightTable.inUse_leaf, fun _ _ => rfl, HeightTable.Clean.leaf⟩, .refl _, rfl⟩

theorem Leaves.record (s : State) (height : Nat) (positive : 1 ≤ height) :
    s.Leaves { s with heights := s.heights.record height positive } where
  later := ⟨rfl, fun _ => HeightTable.inUse_leaf,
    fun _ inUse => HeightTable.height_record_of_inUse _ positive inUse,
    fun hclean => HeightTable.Clean.record hclean _ positive⟩
  reaches := .refl _
  nesting := rfl

/-- A state knows a node as a measured expression: it is in use, and what is on record is no lower than
its height, and exactly that if heights are exact. -/
structure Knows (exact : Prop) (s : State) (node : Node) (m : Measured) : Prop where
  expr : node.expr = m.expr
  inUse : s.heights.InUse node.identity
  height_le : m.height ≤ s.heights.height node.identity
  height_eq : exact → s.heights.height node.identity = m.height

section

variable {exact : Prop} {s after : State}

theorem Knows.later {node : Node} {m : Measured} (h : s.Knows exact node m)
    (hlater : s.Later after) : after.Knows exact node m where
  expr := h.expr
  inUse := hlater.inUse _ h.inUse
  height_le := by
    rw [hlater.height _ h.inUse]
    exact h.height_le
  height_eq hexact := (hlater.height _ h.inUse).trans (h.height_eq hexact)

end

/-- A state knows each node of a list as the measured expression at its place. -/
def KnowsAll (exact : Prop) (s : State) : List Node → List Measured → Prop
  | [], [] => True
  | node :: nodes, m :: ms => s.Knows exact node m ∧ s.KnowsAll exact nodes ms
  | _, _ => False

section

variable {exact : Prop} {s after : State}

theorem KnowsAll.later (hlater : s.Later after) :
    ∀ {nodes : List Node} {ms : List Measured}, s.KnowsAll exact nodes ms →
      after.KnowsAll exact nodes ms
  | [], [], _ => trivial
  | _ :: _, _ :: _, h => ⟨h.1.later hlater, KnowsAll.later hlater h.2⟩

theorem KnowsAll.maxHeight_le :
    ∀ {nodes : List Node} {ms : List Measured}, s.KnowsAll exact nodes ms →
      maxHeight ms ≤ s.heights.greatest nodes
  | [], [], _ => Nat.le_refl 0
  | _ :: _, _ :: _, h => by
    have hrest := KnowsAll.maxHeight_le h.2
    have hfirst := h.1.height_le
    simp only [HeightTable.greatest, maxHeight]
    omega

theorem KnowsAll.greatest_eq (hexact : exact) :
    ∀ {nodes : List Node} {ms : List Measured}, s.KnowsAll exact nodes ms →
      s.heights.greatest nodes = maxHeight ms
  | [], [], _ => rfl
  | _ :: _, _ :: _, h => by
    simp only [HeightTable.greatest, maxHeight, h.1.height_eq hexact, KnowsAll.greatest_eq hexact h.2]

theorem KnowsAll.map_expr_eq :
    ∀ {nodes : List Node} {ms : List Measured}, s.KnowsAll exact nodes ms →
      nodes.map Node.expr = ms.map Measured.expr
  | [], [], _ => rfl
  | _ :: _, _ :: _, h => by simp only [List.map_cons, h.1.expr, KnowsAll.map_expr_eq h.2]

end

/-- A state knows a node that need not be there as a measured expression that need not be
there. -/
def KnowsIfAny (exact : Prop) (s : State) (node : Option Node) (m : Option Measured) : Prop :=
  s.KnowsAll exact node.toList m.toList

/-- Values that are the same whatever the state. -/
def Same {α : Type} (_ : State) (a b : α) : Prop := a = b

end State

namespace Reader

variable {α β γ δ : Type}

/-- What a reader came to from a state is what a descent came to: the values are related in the
state left behind, and the mistakes are the same. If heights are not exact, it may be a mistake of
nesting instead. -/
inductive Agrees (exact : Prop) (related : State → α → β → Prop) (s : State) :
    Result α → Outcome β → Prop
  | value {a b after} (hrelated : related after a b) (hleaves : s.Leaves after) :
    Agrees exact related s (.value a after) (.success b after.cursor)
  | mistake {e after} (hleaves : s.Leaves after) :
    Agrees exact related s (.mistake e after) (.failure e after.cursor)
  | refused {e after o} (hnesting : e.IsNesting) (hstale : ¬ exact) (hleaves : s.Leaves after) :
    Agrees exact related s (.mistake e after) o
  | cutShort : Agrees exact related s .cutShort .cutShort

/-- From each state in the given nesting that comes later than the given one, a reader comes to
what a descent comes to from the cursor. -/
def Follows (exact : Prop) (n : Nesting) (base : State) (related : State → α → β → Prop)
    (p : Reader α) (q : Descent β) : Prop :=
  ∀ s, base.Later s → (exact → s.Clean) → s.nesting = n →
    Agrees exact related s (p s) (q s.cursor)

variable {exact : Prop} {n : Nesting} {base : State} {related : State → α → β → Prop}
  {related' : State → γ → δ → Prop}

theorem Agrees.from {s t : State} (h : s.Leaves t) {r : Result α} {o : Outcome β}
    (hagrees : Agrees exact related t r o) : Agrees exact related s r o := by
  cases hagrees with
  | value hrelated hleaves => exact .value hrelated (h.trans hleaves)
  | mistake hleaves => exact .mistake (h.trans hleaves)
  | refused hnesting hstale hleaves => exact .refused hnesting hstale (h.trans hleaves)
  | cutShort => exact .cutShort

theorem Follows.pure {a : α} {b : β} (h : ∀ s, base.Later s → related s a b) :
    Follows exact n base related (pure a) (pure b) :=
  fun s hs _ _ => .value (h s hs) (.refl s)

theorem Follows.fail (cause : SyntaxCause) (token : Token) :
    Follows exact n base related (fail cause token) (Descent.fail cause token) :=
  fun s _ _ _ => .mistake (.refl s)

theorem Agrees.lift {p : Descent α} (hp : p.Moves) (s : State) :
    Agrees exact State.Same s (Reader.lift p s) (p s.cursor) := by
  have hmoves := hp s.cursor
  unfold Reader.lift
  cases hps : p s.cursor with
  | success a c =>
    rw [hps] at hmoves
    exact .value rfl (.moved hmoves)
  | failure e c =>
    rw [hps] at hmoves
    exact .mistake (.moved hmoves)
  | cutShort => exact .cutShort

theorem Follows.lift {p : Descent α} (hp : p.Moves) :
    Follows exact n base State.Same (lift p) p :=
  fun s _ _ _ => .lift hp s

theorem Follows.take (choose : Token → Option α) (cause : SyntaxCause) :
    Follows exact n base State.Same (Reader.lift (Descent.take choose cause))
      (Descent.take choose cause) :=
  .lift (Descent.moves_take _ _)

theorem Follows.expect (k : TokenKind) (context : Option String) :
    Follows exact n base State.Same (expect k context) (Descent.expect k context) :=
  .lift (Descent.moves_expect _ _)

theorem Follows.peek : Follows exact n base State.Same peek Descent.peek := .lift Descent.moves_peek

theorem Follows.spanFrom (first : Token) :
    Follows exact n base State.Same (spanFrom first) (Descent.spanFrom first) :=
  .lift (Descent.moves_spanFrom _)

theorem Follows.bind {p : Reader α} {q : Descent β} {f : α → Reader γ} {g : β → Descent δ}
    (hp : Follows exact n base related p q)
    (hf : ∀ s a b, base.Later s → related s a b → Follows exact n s related' (f a) (g b)) :
    Follows exact n base related' (p >>= f) (q >>= g) := by
  intro s hs hc hn
  have h := hp s hs hc hn
  change Agrees exact related' s (Reader.bind p f s) (Descent.bind q g s.cursor)
  unfold Reader.bind Descent.bind
  generalize p s = r at h
  generalize q s.cursor = o at h
  cases h with
  | value hrelated hleaves =>
    have hlater := hs.trans hleaves.later
    have hclean := fun hexact => hleaves.later.clean (hc hexact)
    exact (hf _ _ _ hlater hrelated _ (.refl _) hclean (hleaves.nesting.trans hn)).from hleaves
  | mistake hleaves => exact .mistake hleaves
  | refused hnesting hstale hleaves => exact .refused hnesting hstale hleaves
  | cutShort => exact .cutShort

/-- After a part whose value is the same on both sides. -/
theorem Follows.after {p : Reader α} {q : Descent α} {f : α → Reader γ} {g : α → Descent δ}
    (hp : Follows exact n base State.Same p q)
    (hf : ∀ s a, base.Later s → Follows exact n s related' (f a) (g a)) :
    Follows exact n base related' (p >>= f) (q >>= g) :=
  hp.bind fun s a _ hs hsame => hsame ▸ hf s a hs

theorem Follows.ite {condition : Prop} [Decidable condition] {p p' : Reader α} {q q' : Descent β}
    (h : Follows exact n base related p q) (h' : Follows exact n base related p' q') :
    Follows exact n base related (if condition then p else p') (if condition then q else q') := by
  split
  · exact h
  · exact h'

theorem Follows.takeIf {choose : Token → Option γ} {taken : Token → γ → Reader α}
    {taken' : Token → γ → Descent β} {otherwise : Reader α} {otherwise' : Descent β}
    (h : ∀ t a, Follows exact n base related (taken t a) (taken' t a))
    (h' : Follows exact n base related otherwise otherwise') :
    Follows exact n base related (takeIf choose taken otherwise)
      (Descent.takeIf choose taken' otherwise') := by
  intro s hs hc hn
  unfold Reader.takeIf Descent.takeIf
  cases hrest : s.cursor.rest with
  | nil => exact h' s hs hc hn
  | cons t rest =>
    simp only
    cases choose t with
    | none => exact h' s hs hc hn
    | some a =>
      have hmoved := State.Leaves.moved (.pass hrest)
      exact (h t a _ (hs.trans hmoved.later) hc hn).from hmoved

/-- What is put right on the way out is so whatever a reader comes to. -/
theorem Agrees.leaving {s inner : State} {change : State → State}
    (hcursor : ∀ after, (change after).cursor = after.cursor)
    (hleaves : ∀ after, inner.Leaves after → s.Leaves (change after))
    (hrelated : ∀ after a b, related after a b → related (change after) a b)
    {r : Result α} {o : Outcome β} (h : Agrees exact related inner r o) :
    Agrees exact related s (r.leaving change) o := by
  cases h with
  | value hvalue hinner =>
    rw [← hcursor]
    exact .value (hrelated _ _ _ hvalue) (hleaves _ hinner)
  | mistake hinner =>
    rw [← hcursor]
    exact .mistake (hleaves _ hinner)
  | refused hnesting hstale hinner => exact .refused hnesting hstale (hleaves _ hinner)
  | cutShort => exact .cutShort

/-- What changes the nesting on the way in, and changes it back, runs a reader in the other
nesting. -/
theorem Follows.between {n' : Nesting} {enter leave : State → State} {p : Reader Node}
    {q : Descent Measured} (henter : ∀ s : State, s.nesting = n → (enter s).nesting = n')
    (hleave : ∀ s : State, s.nesting = n' → (leave s).nesting = n)
    (hin : ∀ s : State, s.Alike (enter s)) (hout : ∀ s : State, s.Alike (leave s))
    (h : Follows exact n' base (State.Knows exact) p q) :
    Follows exact n base (State.Knows exact) (between enter leave p) q := by
  intro s hs hc hn
  have hinner := h (enter s) (hs.trans (hin s).later)
    (fun hexact => (hin s).later.clean (hc hexact)) (henter s hn)
  rw [(hin s).cursor] at hinner
  refine hinner.leaving (fun after => (hout after).cursor) (fun after hleaves => ?_) ?_
  · refine ⟨(hin s).later.trans (hleaves.later.trans (hout after).later), ?_, ?_⟩
    · rw [(hout after).cursor, ← (hin s).cursor]
      exact hleaves.reaches
    · rw [hn]
      exact hleave after (hleaves.nesting.trans (henter s hn))
  · exact fun after _ _ hknows => hknows.later (hout after).later

theorem Follows.nested {p : Reader Node} {q : Descent Measured}
    (h : Follows exact { n with expressions := n.expressions + 1 } base (State.Knows exact) p q) :
    Follows exact n base (State.Knows exact) (nested p) q := by
  refine .between ?_ ?_ (fun _ => ⟨rfl, rfl, rfl⟩) (fun _ => ⟨rfl, rfl, rfl⟩) h
  · rintro s rfl
    rfl
  · intro s hs
    obtain ⟨hlimit, hdepth, hgroups⟩ := Nesting.mk.inj hs
    simp [State.nesting, hlimit, hdepth, hgroups]

theorem Follows.grouped {p : Reader Node} {q : Descent Measured}
    (h : Follows exact { n with groups := n.groups + 1 } base (State.Knows exact) p q) :
    Follows exact n base (State.Knows exact) (grouped p) q := by
  refine .between ?_ ?_ (fun _ => ⟨rfl, rfl, rfl⟩) (fun _ => ⟨rfl, rfl, rfl⟩) h
  · rintro s rfl
    rfl
  · intro s hs
    obtain ⟨hlimit, hdepth, hgroups⟩ := Nesting.mk.inj hs
    simp [State.nesting, hlimit, hdepth, hgroups]

theorem Follows.make {expr : Expr} {m : Measured} (hexpr : expr = m.expr) (h : m.height = 1) :
    Follows exact n base (State.Knows exact) (make expr) (Pure.pure m) := by
  intro s _ hc _
  refine .value ⟨hexpr, s.heights.inUse_leaf_identity, ?_, fun hexact => ?_⟩ (.leaf s)
  · rw [h]
    exact HeightTable.one_le_height _ _
  · exact (hc hexact).height_identity.trans h.symm

/-- The heights on record refuse a node where its own height does, or they are not exact. -/
theorem Follows.build {parts : List Node} {ms : List Measured} {expr : Expr} {m : Measured}
    (hparts : base.KnowsAll exact parts ms) (hexpr : expr = m.expr)
    (hheight : m.height = 1 + maxHeight ms) (blame : Token) :
    Follows exact n base (State.Knows exact) (build blame parts expr) (checked n.limit blame m) := by
  rintro s hs hc rfl
  have hknows := hparts.later hs
  have hle : m.height ≤ 1 + s.heights.greatest parts := by
    have := hknows.maxHeight_le
    omega
  have heq (hexact : exact) : 1 + s.heights.greatest parts = m.height := by
    rw [hknows.greatest_eq hexact, hheight]
  have hlimit : s.nesting.limit = s.limit := rfl
  unfold Reader.build checked
  rw [hlimit]
  by_cases hdeep : s.limit < (1 + s.heights.greatest parts : Nat)
  · simp only [if_pos hdeep]
    by_cases hdeeper : s.limit < (m.height : Nat)
    · simp only [if_pos hdeeper]
      exact .mistake (.leaf s)
    · refine .refused ⟨_, rfl⟩ (fun hexact => ?_) (.leaf s)
      rw [heq hexact] at hdeep
      exact hdeeper hdeep
  · have hshallow : ¬ s.limit < (m.height : Nat) := by omega
    simp only [if_neg hdeep, if_neg hshallow]
    refine .value ⟨hexpr, s.heights.inUse_leaf_identity, ?_, fun hexact => ?_⟩ (.record s _ _)
    · rw [HeightTable.height_record_identity]
      exact hle
    · rw [HeightTable.height_record_identity]
      exact heq hexact

/-- A count that the state keeps refuses where the count in the nesting does. -/
theorem Follows.limited {opened : State → Nat} {blame : State → Token} {p : Reader α}
    {q refused : Descent β} {count : Nat} (h : Follows exact n base related p q)
    (hopened : ∀ s : State, s.nesting = n → opened s = count)
    (hrefused : ∀ s : State,
      refused s.cursor = Descent.fail (.nestingTooDeep n.limit) (blame s) s.cursor) :
    Follows exact n base related (limited opened blame p) (if n.limit ≤ count then refused else q) := by
  intro s hs hc hn
  have hlimit : s.limit = n.limit := congrArg Nesting.limit hn
  unfold Reader.limited
  rw [hopened s hn, hlimit]
  by_cases hfull : n.limit ≤ count
  · simp only [if_pos hfull, hrefused s]
    exact Follows.fail _ _ s hs hc hn
  · simp only [if_neg hfull]
    exact h s hs hc hn

/-! ### The grammar -/

theorem follows_conditional {e : Reader Node} {d : Descent Measured}
    (h : ∀ base, Follows exact n base (State.Knows exact) e d) (first : Token) :
    Follows exact n base (State.Knows exact) (conditional e first)
      (Parser.conditional n.limit d first) := by
  refine (h _).bind fun s₁ c mc _ hc => (Follows.expect _ _).after fun s₂ _ h₂ => ?_
  refine (h _).bind fun s₃ t mt h₃ ht => (Follows.expect _ _).after fun s₄ _ h₄ => ?_
  refine (h _).bind fun s₅ a ma h₅ ha => (Follows.spanFrom _).after fun s₆ span h₆ => ?_
  have h₄₆ := h₄.trans (h₅.trans h₆)
  have hparts : s₆.KnowsAll exact [c, t, a] [mc, mt, ma] :=
    ⟨hc.later (h₂.trans (h₃.trans h₄₆)), ht.later h₄₆, ha.later h₆, trivial⟩
  refine .build hparts ?_ ?_ first
  · simp only [Measured.cond, hc.expr, ht.expr, ha.expr]
  · simp only [Measured.cond, maxHeight, Nat.max_zero]

theorem follows_loopStep {e : Reader Node} {d : Descent Measured}
    (h : ∀ base, Follows exact n base (State.Knows exact) e d) :
    Follows exact n base (State.KnowsIfAny exact) (loopStep e) (Parser.loopStep d) := by
  refine .takeIf (fun _ _ => ?_) (.pure fun _ _ => trivial)
  exact (h _).bind fun _ _ _ _ hstep => .pure fun _ hlater => ⟨hstep.later hlater, trivial⟩

theorem follows_forLoop {e : Reader Node} {d : Descent Measured}
    (h : ∀ base, Follows exact n base (State.Knows exact) e d) (first : Token) :
    Follows exact n base (State.Knows exact) (forLoop e first) (Parser.forLoop n.limit d first) := by
  refine (Follows.take _ _).after fun _ counter _ => (Follows.take _ _).after fun _ _ _ => ?_
  refine (h _).bind fun s₁ start mstart _ hstart => (Follows.expect _ _).after fun s₂ _ h₂ => ?_
  refine (h _).bind fun s₃ stop mstop h₃ hstop => ?_
  refine (follows_loopStep h).bind fun s₄ step mstep h₄ hstep => ?_
  refine (Follows.expect _ _).after fun s₅ _ h₅ => (h _).bind fun s₆ body mbody h₆ hbody => ?_
  refine (Follows.spanFrom _).after fun s₇ span h₇ => ?_
  have h₅₇ := h₅.trans (h₆.trans h₇)
  have hstart' := hstart.later (h₂.trans (h₃.trans (h₄.trans h₅₇)))
  have hstop' := hstop.later (h₄.trans h₅₇)
  have hbody' := hbody.later h₇
  cases step with
  | none =>
    cases mstep with
    | some _ => exact hstep.elim
    | none =>
      have hparts : s₇.KnowsAll exact [start, stop, body] [mstart, mstop, mbody] :=
        ⟨hstart', hstop', hbody', trivial⟩
      refine .build hparts ?_ ?_ first
      · simp only [Measured.loop, hstart.expr, hstop.expr, hbody.expr, Option.map_none]
      · simp only [Measured.loop, maxHeight, Nat.max_zero]
  | some step =>
    cases mstep with
    | none => exact hstep.elim
    | some mstep =>
      have hparts : s₇.KnowsAll exact [start, stop, step, body] [mstart, mstop, mstep, mbody] :=
        ⟨hstart', hstop', hstep.1.later h₅₇, hbody', trivial⟩
      refine .build hparts ?_ ?_ first
      · simp only [Measured.loop, hstart.expr, hstop.expr, hbody.expr, hstep.1.expr,
          Option.map_some]
      · simp only [Measured.loop, maxHeight, Nat.max_zero]

theorem follows_grouping {e : Reader Node} {d : Nesting → Descent Measured}
    (h : ∀ n base, Follows exact n base (State.Knows exact) e (d n)) (first : Token) :
    Follows exact n base (State.Knows exact) (grouping e first) (Parser.grouping n d first) := by
  refine Follows.limited ?_ ?_ fun _ => rfl
  · refine (h _ _).grouped.bind fun s₁ inner m _ hinner => ?_
    refine (Follows.expect _ _).after fun s₂ _ h₂ => .pure fun _ hlater => ?_
    exact hinner.later (h₂.trans hlater)
  · rintro s rfl
    rfl

theorem follows_variableOrCall {a : Reader (List Node)} {d : Descent (List Measured)}
    (h : ∀ base, Follows exact n base (State.KnowsAll exact) a d) (first : Token) (name : String) :
    Follows exact n base (State.Knows exact) (variableOrCall a first name)
      (Parser.variableOrCall n.limit d first name) := by
  refine .takeIf (fun _ _ => ?_) ?_
  · have hvalues : Follows exact n base (State.KnowsAll exact) (argumentsIfAny a)
        (Parser.argumentsIfAny d) :=
      Follows.peek.after fun _ _ _ => .ite (.pure fun _ _ => trivial) (h _)
    refine hvalues.bind fun s₁ values ms _ hall => (Follows.expect _ _).after fun s₂ _ h₂ => ?_
    refine (Follows.spanFrom _).after fun s₃ span h₃ => ?_
    refine .build (hall.later (h₂.trans h₃)) ?_ rfl first
    simp only [Measured.call, hall.map_expr_eq]
  · exact (Follows.spanFrom _).after fun _ _ _ => .make rfl rfl

theorem follows_rightOperand {op : Operator} {operations : Node → Reader Node}
    {operations' : Measured → Descent Measured}
    (h : ∀ base node m, base.Knows exact node m →
      Follows exact n base (State.Knows exact) (operations node) (operations' m))
    {node : Node} {m : Measured} (hknows : base.Knows exact node m) :
    Follows exact n base (State.Knows exact) (rightOperand op operations node)
      (Parser.rightOperand op operations' m) := by
  refine Follows.peek.after fun s₁ _ h₁ => .ite ?_ ?_
  · exact h _ _ _ (hknows.later h₁)
  · exact .pure fun _ hlater => hknows.later (h₁.trans hlater)

/-- Each reader of expressions follows its descent, in every nesting. -/
theorem follows_within (fuel : Nat) :
    (∀ n base, Follows exact n base (State.Knows exact) (expression fuel) (expressionWithin fuel n)) ∧
    (∀ n base, Follows exact n base (State.Knows exact) (chain fuel) (chainWithin fuel n)) ∧
    (∀ n base, Follows exact n base (State.Knows exact) (primary fuel) (primaryWithin fuel n)) ∧
    (∀ n base least node m, base.Knows exact node m →
      Follows exact n base (State.Knows exact) (operations fuel least node)
        (operationsWithin fuel n least m)) ∧
    (∀ n base, Follows exact n base (State.KnowsAll exact) (arguments fuel)
      (argumentsWithin fuel n)) := by
  induction fuel with
  | zero =>
    refine ⟨?_, ?_, ?_, ?_, ?_⟩ <;> intros <;> exact fun _ _ _ _ => .cutShort
  | succ fuel ih =>
    obtain ⟨hexpression, hchain, hprimary, hoperations, harguments⟩ := ih
    refine ⟨?_, ?_, ?_, ?_, ?_⟩
    · intro n base
      refine (hchain _ _).nested.limited ?_ fun _ => rfl
      rintro s rfl
      rfl
    · intro n base
      exact (hprimary n base).bind fun s left m _ hleft => hoperations n s 0 left m hleft
    · intro n base
      refine (Follows.take _ _).after fun s taken _ => ?_
      obtain ⟨first, opening⟩ := taken
      cases opening with
      | number value => exact (Follows.spanFrom _).after fun _ _ _ => .make rfl rfl
      | identifier name => exact follows_variableOrCall (harguments n) first name
      | group => exact follows_grouping hchain first
      | conditional => exact follows_conditional (hexpression n) first
      | loop => exact follows_forLoop (hexpression n) first
    · intro n base least left mleft hleft
      refine .takeIf (fun token op => ?_) (.pure fun _ hlater => hleft.later hlater)
      refine (hprimary n base).bind fun s₁ first mfirst h₁ hfirst => ?_
      refine (follows_rightOperand (hoperations n · _) hfirst).bind
        fun s₂ right mright h₂ hright => ?_
      have hparts : s₂.KnowsAll exact [left, right] [mleft, mright] :=
        ⟨hleft.later (h₁.trans h₂), hright, trivial⟩
      refine (Follows.build hparts ?_ ?_ token).bind fun s₃ node m _ hnode =>
        hoperations n s₃ least node m hnode
      · simp only [Measured.binary, hleft.expr, hright.expr]
      · simp only [Measured.binary, maxHeight, Nat.max_zero]
    · intro n base
      refine (hexpression n base).bind fun s₁ value m _ hvalue => ?_
      refine Follows.peek.after fun s₂ next h₂ => .ite ?_ ?_
      · exact .pure fun _ hlater => ⟨hvalue.later (h₂.trans hlater), trivial⟩
      · refine (Follows.take _ _).after fun s₃ _ h₃ => ?_
        refine (harguments n s₃).bind fun s₄ rest ms h₄ hrest => .pure fun _ hlater => ?_
        exact ⟨hvalue.later (h₂.trans (h₃.trans (h₄.trans hlater))), hrest.later hlater⟩

/-- A definition is read as its descent reads it. -/
theorem follows_definition (fuel : Nat) (limit : Int) (base : State) :
    Follows exact { limit } base State.Same (definition fuel) (definitionWithin fuel limit) := by
  refine (Follows.expect _ _).after fun _ _ _ => ?_
  refine (Follows.lift (moves_prototypeWithin _)).after fun s₂ prototype _ => ?_
  refine ((follows_within fuel).1 _ s₂).bind fun s₃ node m _ hnode => ?_
  refine (Follows.expect _ _).after fun _ _ _ => .pure fun _ _ => ?_
  simp only [State.Same, hnode.expr]

/-- A statement is read as its descent reads it. -/
theorem follows_statement (fuel : Nat) (limit : Int) (base : State) :
    Follows exact { limit } base State.Same (statement fuel) (statementWithin fuel limit) := by
  have expressionCase (s : State) : Follows exact { limit } s State.Same
      (do
        let e ← expression fuel
        let _ ← expect (.punctuation .semicolon) "after top-level expression"
        return some (Statement.expression e.expr))
      (do
        let e ← expressionWithin fuel { limit }
        let _ ← Descent.expect (.punctuation .semicolon) "after top-level expression"
        return some (Statement.expression e.expr)) := by
    refine ((follows_within fuel).1 _ s).bind fun _ node m _ hnode => ?_
    refine (Follows.expect _ _).after fun _ _ _ => .pure fun _ _ => ?_
    simp only [State.Same, hnode.expr]
  refine Follows.peek.after fun s next _ => ?_
  cases next.kind with
  | keyword word =>
    cases word with
    | externWord =>
      exact (Follows.lift (moves_foreignWithin _)).after fun _ _ _ => .pure fun _ _ => rfl
    | defWord =>
      exact (follows_definition fuel limit s).after fun _ _ _ => .pure fun _ _ => rfl
    | _ => exact expressionCase s
  | punctuation mark =>
    cases mark with
    | semicolon => exact (Follows.expect _ _).after fun _ _ _ => .pure fun _ _ => rfl
    | _ => exact expressionCase s
  | _ => exact expressionCase s

/-! ### What a whole call comes to -/

end Reader

/-- A state that a call leaves behind: the tokens and the limit are those that it found, the cursor
is where it was or further on, a clean record is clean, and nothing is open. -/
structure State.Settles (s after : State) : Prop where
  tokens : after.tokens = s.tokens
  limit : after.limit = s.limit
  reaches : s.cursor.Reaches after.cursor
  clean : s.Clean → after.Clean
  closed : after.Closed

theorem State.Settles.refl {s : State} (h : s.Closed) : s.Settles s := ⟨rfl, rfl, .refl _, id, h⟩

theorem State.Settles.trans {s t u : State} (h : s.Settles t) (h' : t.Settles u) : s.Settles u where
  tokens := h'.tokens.trans h.tokens
  limit := h'.limit.trans h.limit
  reaches := h.reaches.trans h'.reaches
  clean hclean := h'.clean (h.clean hclean)
  closed := h'.closed

/-- A call came to an answer, and the cursor stands where the answer says. If heights are not exact, it
may have come to a mistake of nesting instead. -/
inductive Result.Answers {α β : Type} (exact : Prop) (related : α → β → Prop) (s : State) :
    Result α → Except SyntaxError β × Cursor → Prop
  | value {a b after} (hrelated : related a b) (hsettles : s.Settles after) :
    Answers exact related s (.value a after) (.ok b, after.cursor)
  | mistake {e after} (hsettles : s.Settles after) :
    Answers exact related s (.mistake e after) (.error e, after.cursor)
  | refused {e after o} (hnesting : e.IsNesting) (hstale : ¬ exact) (hsettles : s.Settles after) :
    Answers exact related s (.mistake e after) o

section

variable {exact : Prop} {α β : Type} {related : α → β → Prop} {s t : State} {r : Result α}
  {o : Except SyntaxError β × Cursor}

theorem Result.Answers.closed (h : r.Answers exact related s o) : r.Closed := by
  cases h with
  | value _ hsettles => exact hsettles.closed
  | mistake hsettles => exact hsettles.closed
  | refused _ _ hsettles => exact hsettles.closed

/-- What came to an answer from a state that settled in another comes to it from that one. -/
theorem Result.Answers.from (h : s.Settles t) (hanswers : r.Answers exact related t o) :
    r.Answers exact related s o := by
  cases hanswers with
  | value hrelated hsettles => exact .value hrelated (h.trans hsettles)
  | mistake hsettles => exact .mistake (h.trans hsettles)
  | refused hnesting hstale hsettles => exact .refused hnesting hstale (h.trans hsettles)

end

namespace Reader

variable {α β : Type} {s : State}

/-- Where nothing is open, what agrees with a descent gives its answer. -/
theorem Agrees.answers {exact : Prop} {related : State → α → β → Prop} {value : α → β → Prop}
    {r : Result α} {q : Descent β} (hs : s.Closed) (h : Agrees exact related s r (q s.cursor))
    (hq : q s.cursor ≠ .cutShort) (hvalue : ∀ after a b, related after a b → value a b) :
    r.Answers exact value s (Descent.finish q s.cursor hq) := by
  have settles {after : State} (h : s.Leaves after) : s.Settles after := by
    have hafter := h.nesting
    simp only [State.nesting, Nesting.mk.injEq] at hafter
    exact ⟨h.later.tokens, hafter.1, h.reaches, h.later.clean, hafter.2.1.trans hs.1,
      hafter.2.2.trans hs.2⟩
  generalize ho : q s.cursor = o at h
  cases h with
  | value hrelated hleaves =>
    rw [(Descent.finish_eq_ok hq).mpr ho]
    exact .value (hvalue _ _ _ hrelated) (settles hleaves)
  | mistake hleaves =>
    rw [(Descent.finish_eq_error hq).mpr ho]
    exact .mistake (settles hleaves)
  | refused hnesting hstale hleaves => exact .refused hnesting hstale (settles hleaves)
  | cutShort => exact absurd ho hq

/-- A reader that follows a descent gives its answer, but for a record that is not clean. -/
theorem Follows.answers {related : State → α → β → Prop} {value : α → β → Prop}
    {p : Reader α} {q : Descent β} (hs : s.Closed)
    (h : Follows s.Clean { limit := s.limit } s related p q)
    (hq : q s.cursor ≠ .cutShort) (hvalue : ∀ after a b, related after a b → value a b) :
    (p s).Answers s.Clean value s (Descent.finish q s.cursor hq) := by
  have hnesting : s.nesting = { limit := s.limit } := by
    unfold State.nesting
    rw [hs.1, hs.2]
  exact (h s (.refl s) id hnesting).answers hs hq hvalue

theorem prototype_answers (hs : s.Closed) :
    (lift (prototypeWithin (s.cursor.rest.length + 1)) s).Answers True Eq s
      (Parser.prototype s.cursor) :=
  (Agrees.lift (moves_prototypeWithin _) s).answers hs _ fun _ _ _ => id

theorem foreign_answers (hs : s.Closed) :
    (lift (foreignWithin (s.cursor.rest.length + 1)) s).Answers True Eq s
      (Parser.foreign s.cursor) :=
  (Agrees.lift (moves_foreignWithin _) s).answers hs _ fun _ _ _ => id

theorem expression_answers (hs : s.Closed) :
    (expression (4 * s.cursor.rest.length + 3) s).Answers s.Clean
      (fun node m => node.expr = m.expr) s (Parser.expression s.limit s.cursor) :=
  Follows.answers hs ((follows_within _).1 _ s) _ fun _ _ _ hknows => hknows.expr

theorem definition_answers (hs : s.Closed) :
    (definition (4 * s.cursor.rest.length + 3) s).Answers s.Clean Eq s
      (Parser.definition s.limit s.cursor) :=
  Follows.answers hs (follows_definition _ _ s) _ fun _ _ _ => id

theorem statement_answers (hs : s.Closed) :
    (statement (4 * s.cursor.rest.length + 3) s).Answers s.Clean Eq s
      (Parser.statement s.limit s.cursor) :=
  Follows.answers hs (follows_statement _ _ s) _ fun _ _ _ => id

end Reader

/-- The statements of a reading, or the mistake in it, and where it stopped. -/
def Reading.answer (r : Reading) : Except SyntaxError (List Statement) × Cursor :=
  (match r.mistake with
    | some e => .error e
    | none => .ok r.statements, r.cursor)

theorem Reading.program_eq (r : Reading) :
    r.program = r.answer.1.map fun ss => (Program.ofStatements ss).close := by
  unfold program answer
  cases r.mistake with
  | some e => rfl
  | none => rfl

namespace Reader

/-- Statements are read to the end or to the first mistake as without a state, if the record is clean.
The induction is on the steps; each statement leaves nothing open and the record clean, which is what the
next one needs. -/
theorem statements_answers (steps : Nat) (before : List Statement) {s : State} (hs : s.Closed)
    (hclean : s.Clean) : (statements steps before s).Answers True Eq s
      (statementsFrom s.limit steps before s.cursor).answer := by
  induction steps generalizing before s with
  | zero => exact .value rfl (.refl hs)
  | succ steps ih =>
    unfold statements statementsFrom
    by_cases hend : s.cursor.rest.isEmpty
    · simp only [if_pos hend]
      exact .value rfl (.refl hs)
    · simp only [if_neg hend]
      change Result.Answers True Eq s (Reader.bind _ _ s) _
      unfold Reader.bind
      have hstatement := statement_answers hs
      generalize statement (4 * s.cursor.rest.length + 3) s = r at hstatement
      generalize Parser.statement s.limit s.cursor = o at hstatement
      cases hstatement with
      | value hsame hsettles =>
        subst hsame
        simp only
        rw [← hsettles.limit]
        exact (ih _ hsettles.closed (hsettles.clean hclean)).from hsettles
      | mistake hsettles => exact .mistake hsettles
      | refused _ hstale _ => exact absurd hclean hstale

/-- A whole program is read as without a state, whatever is open or on record beforehand and
wherever the cursor stands. -/
theorem program_answers (s : State) :
    (program (s.tokens.length + 1) s).Answers True Eq s.restarted
      ((Parser.read s.tokens s.limit).program, (Parser.read s.tokens s.limit).cursor) := by
  have hread : (statements (s.tokens.length + 1) [] s.restarted).Answers True Eq s.restarted
      (Parser.read s.tokens s.limit).answer :=
    statements_answers _ _ ⟨rfl, rfl⟩ s.heights.clean_wiped
  change Result.Answers True Eq s.restarted (Reader.bind (statements _ []) _ s.restarted)
    (_, (Parser.read s.tokens s.limit).answer.2)
  rw [Reading.program_eq]
  unfold Reader.bind
  generalize statements (s.tokens.length + 1) [] s.restarted = r at hread
  generalize (Parser.read s.tokens s.limit).answer = o at hread
  cases hread with
  | value hsame hsettles =>
    subst hsame
    exact .value rfl ⟨hsettles.tokens, hsettles.limit, hsettles.reaches,
      fun _ => HeightTable.clean_wiped _, hsettles.closed⟩
  | mistake hsettles => exact .mistake hsettles
  | refused _ hstale _ => exact absurd trivial hstale

end Reader

end Formulary.Parser
