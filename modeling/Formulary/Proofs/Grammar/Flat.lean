import Formulary.Proofs.Grammar.Chain
import Formulary.Program

/-!
# Flattened trees

`flat` lists what a tree was read from in source order: numbers, names, operators, the words of
conditions and loops, and the parentheses and commas of calls. Grouping parentheses leave no trace
in a tree, nor do the commas between parameters. `bare` is a tree or a statement without its
spans.
-/

namespace Formulary

/-- The content of a mark. -/
abbrev mark (m : Punctuation) : TokenContent := .punctuation m

/-- The content of a reserved word. -/
abbrev word (w : Keyword) : TokenContent := .keyword w

namespace Expr

mutual

/-- A tree without its spans. -/
def bare : Expr → Expr
  | number value _ => number value none
  | var name _ => var name none
  | binary op left right _ => binary op (bare left) (bare right) none
  | call name arguments _ => call name (bares arguments) none
  | cond condition consequent alternative _ =>
    cond (bare condition) (bare consequent) (bare alternative) none
  | loop name start stop none body _ => loop name (bare start) (bare stop) none (bare body) none
  | loop name start stop (some step) body _ =>
    loop name (bare start) (bare stop) (some (bare step)) (bare body) none

/-- The trees of a list without their spans. -/
def bares : List Expr → List Expr
  | [] => []
  | e :: rest => bare e :: bares rest

end

mutual

/-- The contents of the tokens of a tree, in source order. -/
def flat : Expr → List TokenContent
  | number value _ => [.number value]
  | var name _ => [.identifier name]
  | binary op left right _ => flat left ++ .operator op :: flat right
  | call name arguments _ =>
    .identifier name :: mark .leftParen :: (flats arguments ++ [mark .rightParen])
  | cond condition consequent alternative _ =>
    word .ifWord :: (flat condition ++ word .thenWord :: (flat consequent ++
      word .elseWord :: flat alternative))
  | loop name start stop none body _ =>
    word .forWord :: .identifier name :: .operator .equals :: (flat start ++
      mark .comma :: (flat stop ++ word .inWord :: flat body))
  | loop name start stop (some step) body _ =>
    word .forWord :: .identifier name :: .operator .equals :: (flat start ++
      mark .comma :: (flat stop ++ mark .comma :: (flat step ++ word .inWord :: flat body)))

/-- The contents of the tokens of trees with commas between them. -/
def flats : List Expr → List TokenContent
  | [] => []
  | [e] => flat e
  | e :: next :: rest => flat e ++ mark .comma :: flats (next :: rest)

end

/-- A loop without its spans, whether it has a step or not. -/
theorem bare_loop (name : String) (start stop : Expr) (step : Option Expr) (body : Expr)
    (span : Option Span) : (loop name start stop step body span).bare =
      loop name start.bare stop.bare (step.map bare) body.bare none := by
  cases step <;> rfl

/-- Removing spans from a list of trees. -/
theorem bares_eq_map (es : List Expr) : bares es = es.map bare := by
  induction es with
  | nil => rfl
  | cons e rest ih => rw [bares, ih, List.map_cons]

/-- A tree without spans has none to remove. -/
@[simp] theorem bare_bare (e : Expr) : e.bare.bare = e.bare := by
  induction e with
  | number value span => rfl
  | var name span => rfl
  | binary op left right span hl hr => simp only [bare, hl, hr]
  | call name arguments span ih =>
    simp only [bare, bares_eq_map, List.map_map]
    congr 1
    exact List.map_congr_left ih
  | cond condition consequent alternative span hc ht hf => simp only [bare, hc, ht, hf]
  | loop name start stop step body span h1 h2 h3 h4 =>
    cases step with
    | none => simp only [bare, h1, h2, h4]
    | some s => simp only [bare, h1, h2, h3 s rfl, h4]

/-- The greatest height in a list is a bound on every height in it. -/
theorem height_le_heights {e : Expr} {es : List Expr} (h : e ∈ es) : e.height ≤ heights es := by
  induction es with
  | nil => simp at h
  | cons x rest ih =>
    rw [heights]
    rcases List.mem_cons.mp h with rfl | h
    · exact Nat.le_max_left _ _
    · exact Nat.le_trans (ih h) (Nat.le_max_right _ _)

/-- Spans are no part of the height. -/
@[simp] theorem height_bare (e : Expr) : e.bare.height = e.height := by
  induction e with
  | number value span => rfl
  | var name span => rfl
  | binary op left right span hl hr => simp only [bare, height, hl, hr]
  | call name arguments span ih =>
    have hlist : heights (bares arguments) = heights arguments := by
      induction arguments with
      | nil => rfl
      | cons a rest ihrest =>
        rw [bares, heights, heights, ih a List.mem_cons_self,
          ihrest fun b hb => ih b (List.mem_cons_of_mem _ hb)]
    simp only [bare, height, hlist]
  | cond condition consequent alternative span hc ht hf => simp only [bare, height, hc, ht, hf]
  | loop name start stop step body span h1 h2 h3 h4 =>
    cases step with
    | none => simp only [bare, height, h1, h2, h4]
    | some s => simp only [bare, height, h1, h2, h3 s rfl, h4]

/-- Spans are no part of the flattened tree. -/
@[simp] theorem flat_bare (e : Expr) : e.bare.flat = e.flat := by
  induction e with
  | number value span => rfl
  | var name span => rfl
  | binary op left right span hl hr => simp only [bare, flat, hl, hr]
  | call name arguments span ih =>
    have hlist : flats (bares arguments) = flats arguments := by
      induction arguments with
      | nil => rfl
      | cons a rest ihrest =>
        have hrest := ihrest fun b hb => ih b (List.mem_cons_of_mem _ hb)
        cases rest with
        | nil => simp only [bares, flats, ih a List.mem_cons_self]
        | cons b rest =>
          simp only [bares, flats, ih a List.mem_cons_self] at hrest ⊢
          rw [hrest]
    simp only [bare, flat, hlist]
  | cond condition consequent alternative span hc ht hf => simp only [bare, flat, hc, ht, hf]
  | loop name start stop step body span h1 h2 h3 h4 =>
    cases step with
    | none => simp only [bare, flat, h1, h2, h4]
    | some s => simp only [bare, flat, h1, h2, h3 s rfl, h4]

end Expr

/-- The tree of a chain shows the operands and the operators in the order of the chain. -/
theorem flat_ofChain (first : Expr) (chain : Chain) :
    (ofChain first chain).flat =
      first.flat ++ chain.flatMap fun link => .operator link.1 :: link.2.flat := by
  induction chain using Chain.splitInduction generalizing first with
  | nil => simp
  | split chain s hs ihbefore ihafter =>
    rw [ofChain_of_splitChain first hs, Expr.flat, ihbefore, ihafter, eq_of_splitChain hs]
    simp

/-- A prototype without its span. -/
def Prototype.bare (p : Prototype) : Prototype := { p with span := none }

/-- Prototypes that differ in their spans only have the same name and the same parameters. -/
theorem Prototype.eq_of_bare_eq {p p' : Prototype} (h : p.bare = p'.bare) :
    p.name = p'.name ∧ p.params = p'.params := by
  have hname : p.bare.name = p'.bare.name := congrArg Prototype.name h
  have hparams : p.bare.params = p'.bare.params := congrArg Prototype.params h
  exact ⟨hname, hparams⟩

/-- A definition without its spans. -/
def Definition.bare (d : Definition) : Definition := ⟨d.prototype.bare, d.body.bare⟩

/-- A statement without its spans. -/
def Statement.bare : Statement → Statement
  | .foreign p => .foreign p.bare
  | .definition d => .definition d.bare
  | .expression e => .expression e.bare

/-- The contents of the tokens of a prototype, commas between parameters left out. -/
def Prototype.flat (p : Prototype) : List TokenContent :=
  .identifier p.name :: mark .leftParen :: (p.params.map .identifier ++ [mark .rightParen])

/-- The contents of the tokens of the declaration of an outside function. -/
def Prototype.flatExtern (p : Prototype) : List TokenContent :=
  word .externWord :: (p.flat ++ [mark .semicolon])

/-- The contents of the tokens of a definition. -/
def Definition.flat (d : Definition) : List TokenContent :=
  word .defWord :: (d.prototype.flat ++ (d.body.flat ++ [mark .semicolon]))

/-- The contents of the tokens of a top-level expression. -/
def Expr.flatStatement (e : Expr) : List TokenContent := e.flat ++ [mark .semicolon]

/-- The contents of the tokens of a statement. -/
def Statement.flat : Statement → List TokenContent
  | .foreign p => p.flatExtern
  | .definition d => d.flat
  | .expression e => e.flatStatement

end Formulary
