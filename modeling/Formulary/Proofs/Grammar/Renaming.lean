import Formulary.Proofs.Grammar.Alpha

/-!
# Renaming bound variables

A variable is renamed where it occurs free: in a loop over a variable of the same name only in the
start, in any other loop everywhere. One loop somewhere in a tree gets a new variable when the free
occurrences of its own are renamed in its end, its step and its body, and a parameter of a definition
when those in the body are. If the new name is not yet there, nothing else changes: what was renamed is
what it was, but for the names of bound variables.
-/

namespace Formulary

namespace Expr

/-- A name, or the new one in place of the old one. -/
def renamed (old new x : String) : String := if x = old then new else x

mutual

/-- Rename a variable where it occurs free. -/
def rename (old new : String) : Expr → Expr
  | number value s => number value s
  | var name s => var (renamed old new name) s
  | binary op left right s => binary op (rename old new left) (rename old new right) s
  | call name arguments s => call name (renames old new arguments) s
  | cond c t f s => cond (rename old new c) (rename old new t) (rename old new f) s
  | loop name start stop none body s =>
    if name = old then loop name (rename old new start) stop none body s
    else loop name (rename old new start) (rename old new stop) none (rename old new body) s
  | loop name start stop (some step) body s =>
    if name = old then loop name (rename old new start) stop (some step) body s
    else loop name (rename old new start) (rename old new stop) (some (rename old new step))
      (rename old new body) s

/-- Rename a variable where it occurs free in the trees of a list. -/
def renames (old new : String) : List Expr → List Expr
  | [] => []
  | e :: rest => rename old new e :: renames old new rest

end

section

variable {old new : String}

theorem renames_eq_map (es : List Expr) : renames old new es = es.map (rename old new) := by
  induction es with
  | nil => rfl
  | cons e rest ih => rw [renames, List.map_cons, ih]

/-- A loop over the variable keeps all but its start. -/
theorem rename_loop_same {start stop body : Expr} {step : Option Expr} {s : Option Span} :
    (loop old start stop step body s).rename old new =
      loop old (start.rename old new) stop step body s := by
  cases step <;> simp [rename]

/-- A loop over another variable has all its parts renamed. -/
theorem rename_loop_other {name : String} {start stop body : Expr} {step : Option Expr}
    {s : Option Span} (h : name ≠ old) : (loop name start stop step body s).rename old new =
      loop name (start.rename old new) (stop.rename old new) (step.map (rename old new))
        (body.rename old new) s := by
  cases step <;> simp [rename, h]

/-- A name is not the new one, and stands for its renamed self. -/
def Follows (pairs : Pairing) (old new x : String) : Prop := x ≠ new ∧ pairs x (renamed old new x)

namespace Follows

variable {pairs : Pairing} {x : String}

/-- Inside a loop over another variable it still does. -/
theorem bind_other {name : String} (h : Follows pairs old new x) (hold : name ≠ old)
    (hnew : name ≠ new) : Follows (pairs.bind name name) old new x := by
  unfold Follows renamed Pairing.bind at *
  grind

/-- Inside a loop over the old name it stands for itself. -/
theorem bind_same (h : Follows pairs old new x) : pairs.bind old old x x := by
  unfold Follows renamed Pairing.bind at *
  grind

/-- Inside a loop whose variable gets the new name, what stands for itself follows it. -/
theorem bind_renamed (hnew : x ≠ new) (h : pairs x x) : Follows (pairs.bind old new) old new x := by
  unfold Follows renamed Pairing.bind
  grind

end Follows

/-- Where the names of a tree stand for their renamed selves, the tree is related to the renamed one.
-/
theorem Alpha.rename {pairs : Pairing} {e : Expr}
    (h : ∀ x ∈ e.variableNames, Follows pairs old new x) : Alpha pairs e (e.rename old new) := by
  induction e generalizing pairs with
  | number value span => exact .number
  | var name span => exact .var (h name (mem_variableNames_of_root rfl)).2
  | binary op left right span hleft hright =>
    have hparts := forall_variableNames_parts h
    simp only [children, List.forall_mem_cons] at hparts
    exact .binary (hleft hparts.1) (hright hparts.2.1)
  | call name arguments span harguments =>
    rw [Expr.rename, renames_eq_map]
    exact .call (.map fun a ha => harguments a ha (forall_variableNames_parts h a ha))
  | cond condition consequent alternative span hcondition hconsequent halternative =>
    have hparts := forall_variableNames_parts h
    simp only [children, List.forall_mem_cons] at hparts
    exact .cond (hcondition hparts.1) (hconsequent hparts.2.1) (halternative hparts.2.2.1)
  | loop name start stop step body span ihstart ihstop ihstep ihbody =>
    obtain ⟨hstart, hstop, hstep, hbody⟩ := forall_variableNames_loop h
    by_cases hname : name = old
    · subst hname
      rw [rename_loop_same]
      exact .loop (ihstart hstart) (.refl fun x hx => (hstop x hx).bind_same)
        (.refl fun s hs => .refl fun x hx => (hstep s hs x hx).bind_same)
        (.refl fun x hx => (hbody x hx).bind_same)
    · have hnew : name ≠ new := (h name (mem_variableNames_of_root rfl)).1
      rw [rename_loop_other hname]
      refine .loop (ihstart hstart) (ihstop fun x hx => (hstop x hx).bind_other hname hnew) ?_
        (ihbody fun x hx => (hbody x hx).bind_other hname hnew)
      rw [Option.toList_map]
      exact .map fun s hs => ihstep s (Option.mem_toList.mp hs) fun x hx =>
        (hstep s hs x hx).bind_other hname hnew

end

/-- One tree becomes another when one loop somewhere in it gets a new variable: in its header, and
where its own variable occurs in its end, its step and its body. -/
inductive LoopRenamed (new : String) : Expr → Expr → Prop
  | here {name start stop step body s} :
    LoopRenamed new (.loop name start stop step body s)
      (.loop new start (stop.rename name new) (step.map (rename name new)) (body.rename name new) s)
  | left {op a a' b s} (h : LoopRenamed new a a') :
    LoopRenamed new (.binary op a b s) (.binary op a' b s)
  | right {op a b b' s} (h : LoopRenamed new b b') :
    LoopRenamed new (.binary op a b s) (.binary op a b' s)
  | argument {name before a a' behind s} (h : LoopRenamed new a a') :
    LoopRenamed new (.call name (before ++ a :: behind) s) (.call name (before ++ a' :: behind) s)
  | condition {a a' b c s} (h : LoopRenamed new a a') :
    LoopRenamed new (.cond a b c s) (.cond a' b c s)
  | consequent {a b b' c s} (h : LoopRenamed new b b') :
    LoopRenamed new (.cond a b c s) (.cond a b' c s)
  | alternative {a b c c' s} (h : LoopRenamed new c c') :
    LoopRenamed new (.cond a b c s) (.cond a b c' s)
  | start {name a a' stop step body s} (h : LoopRenamed new a a') :
    LoopRenamed new (.loop name a stop step body s) (.loop name a' stop step body s)
  | stop {name start a a' step body s} (h : LoopRenamed new a a') :
    LoopRenamed new (.loop name start a step body s) (.loop name start a' step body s)
  | step {name start stop a a' body s} (h : LoopRenamed new a a') :
    LoopRenamed new (.loop name start stop (some a) body s) (.loop name start stop (some a') body s)
  | body {name start stop step a a' s} (h : LoopRenamed new a a') :
    LoopRenamed new (.loop name start stop step a s) (.loop name start stop step a' s)

/-- Each name of a tree is not the new one and stands for itself. -/
def Keeps (pairs : Pairing) (new : String) (e : Expr) : Prop :=
  ∀ x ∈ e.variableNames, x ≠ new ∧ pairs x x

namespace Keeps

variable {pairs : Pairing} {new : String} {e : Expr}

/-- Such a tree is related to itself. -/
theorem alpha (h : Keeps pairs new e) : Alpha pairs e e := .refl fun x hx => (h x hx).2

/-- It still is so inside a loop. -/
theorem bind (h : Keeps pairs new e) (name : String) : Keeps (pairs.bind name name) new e :=
  fun x hx => ⟨(h x hx).1, Pairing.bind_self (h x hx).2 name⟩

/-- Inside a loop that gets the new name, it is related to what it becomes. -/
theorem bind_renamed (h : Keeps pairs new e) (name : String) :
    Alpha (pairs.bind name new) e (e.rename name new) :=
  .rename fun x hx => .bind_renamed (h x hx).1 (h x hx).2

/-- What holds of a tree holds of its parts. -/
theorem parts (h : Keeps pairs new e) : ∀ part ∈ e.children, Keeps pairs new part :=
  forall_variableNames_parts h

/-- What holds of a loop holds of its start, its end, its step and its body. -/
theorem loop {name : String} {start stop body : Expr} {step : Option Expr} {span : Option Span}
    (h : Keeps pairs new (.loop name start stop step body span)) :
    Keeps pairs new start ∧ Keeps pairs new stop ∧ (∀ s ∈ step.toList, Keeps pairs new s) ∧
      Keeps pairs new body :=
  forall_variableNames_loop h

end Keeps

/-- A tree is related to what it becomes when a loop gets a variable that is not in it. -/
theorem LoopRenamed.alpha {new : String} {pairs : Pairing} {e e' : Expr} (h : LoopRenamed new e e')
    (hkeeps : Keeps pairs new e) : Alpha pairs e e' := by
  -- The loops on the way to the renamed one bind their own names on both sides, which keeps every name
  -- standing for itself; that is why the pairs have to vary.
  induction h generalizing pairs with
  | @here name start stop step body s =>
    obtain ⟨hstart, hstop, hstep, hbody⟩ := hkeeps.loop
    refine .loop hstart.alpha (hstop.bind_renamed name) ?_ (hbody.bind_renamed name)
    rw [Option.toList_map]
    exact .map fun s hs => (hstep s hs).bind_renamed name
  | left _ ih =>
    have hparts := hkeeps.parts
    simp only [children, List.forall_mem_cons] at hparts
    exact .binary (ih hparts.1) hparts.2.1.alpha
  | right _ ih =>
    have hparts := hkeeps.parts
    simp only [children, List.forall_mem_cons] at hparts
    exact .binary hparts.1.alpha (ih hparts.2.1)
  | argument _ ih =>
    have hparts := hkeeps.parts
    simp only [children, List.forall_mem_append, List.forall_mem_cons] at hparts
    obtain ⟨hbefore, hargument, hbehind⟩ := hparts
    exact .call (.append (.refl fun e he => (hbefore e he).alpha)
      (.cons (ih hargument) (.refl fun e he => (hbehind e he).alpha)))
  | condition _ ih =>
    have hparts := hkeeps.parts
    simp only [children, List.forall_mem_cons] at hparts
    exact .cond (ih hparts.1) hparts.2.1.alpha hparts.2.2.1.alpha
  | consequent _ ih =>
    have hparts := hkeeps.parts
    simp only [children, List.forall_mem_cons] at hparts
    exact .cond hparts.1.alpha (ih hparts.2.1) hparts.2.2.1.alpha
  | alternative _ ih =>
    have hparts := hkeeps.parts
    simp only [children, List.forall_mem_cons] at hparts
    exact .cond hparts.1.alpha hparts.2.1.alpha (ih hparts.2.2.1)
  | @start name _ _ _ _ _ _ _ ih =>
    obtain ⟨hstart, hstop, hstep, hbody⟩ := hkeeps.loop
    exact .loop (ih hstart) (hstop.bind name).alpha (.refl fun s hs => ((hstep s hs).bind name).alpha)
      (hbody.bind name).alpha
  | @stop name _ _ _ _ _ _ _ ih =>
    obtain ⟨hstart, hstop, hstep, hbody⟩ := hkeeps.loop
    exact .loop hstart.alpha (ih (hstop.bind name)) (.refl fun s hs => ((hstep s hs).bind name).alpha)
      (hbody.bind name).alpha
  | @step name _ _ _ _ _ _ _ ih =>
    obtain ⟨hstart, hstop, hstep, hbody⟩ := hkeeps.loop
    have hstep := (hstep _ (List.mem_singleton_self _)).bind name
    exact .loop hstart.alpha (hstop.bind name).alpha (.cons (ih hstep) .nil) (hbody.bind name).alpha
  | @body name _ _ _ _ _ _ _ ih =>
    obtain ⟨hstart, hstop, hstep, hbody⟩ := hkeeps.loop
    exact .loop hstart.alpha (hstop.bind name).alpha
      (.refl fun s hs => ((hstep s hs).bind name).alpha) (ih (hbody.bind name))

end Expr

/-! ### Definitions and statements -/

/-- A definition with a parameter renamed, in its prototype and where it occurs free in the body. -/
def Definition.renameParameter (old new : String) (d : Definition) : Definition where
  prototype := { d.prototype with params := d.prototype.params.map (Expr.renamed old new) }
  body := d.body.rename old new

/-- Where a name stands for its renamed self unless it is among the parameters, it does behind the
parameters and the renamed ones. -/
theorem Expr.Follows.bindAll {pairs : Pairing} {old new x : String} {params : List String}
    (hnew : new ∉ params) (hx : x ≠ new) (h : x ∉ params → pairs x (renamed old new x)) :
    Follows (pairs.bindAll params (params.map (renamed old new))) old new x := by
  induction params generalizing pairs with
  | nil => exact ⟨hx, h List.not_mem_nil⟩
  | cons param rest ih =>
    obtain ⟨hparam, hrest⟩ := not_or.mp (mt List.mem_cons.mpr hnew)
    refine ih hrest fun hnot => ?_
    by_cases hequal : x = param
    · exact .inl ⟨hequal, congrArg (renamed old new) hequal⟩
    · have hrenamed : renamed old new x ≠ renamed old new param := by
        unfold renamed
        grind
      exact .inr ⟨hequal, hrenamed, h fun hmem => (List.mem_cons.mp hmem).elim hequal hnot⟩

/-- A definition is what it was when a parameter gets a name that is not in it. -/
theorem Definition.alpha_renameParameter {d : Definition} {old new : String}
    (hold : old ∈ d.prototype.params) (hparams : new ∉ d.prototype.params)
    (hbody : new ∉ d.body.variableNames) : d.Alpha (d.renameParameter old new) where
  name := rfl
  arity := (List.length_map _).symm
  body := by
    refine .rename fun x hx => .bindAll hparams (fun hsame => hbody (hsame ▸ hx)) fun hnot => ?_
    have hother : x ≠ old := fun hsame => hnot (hsame ▸ hold)
    rw [Expr.renamed, if_neg hother]

/-- The names of variables in a statement: the parameters of a definition, and the variables in the
tree. -/
def Statement.variableNames : Statement → List String
  | .foreign _ => []
  | .definition d => d.prototype.params ++ d.body.variableNames
  | .expression e => e.variableNames

/-- One statement becomes another when one parameter of a definition gets a new name, or one loop
somewhere in a body or in a top-level expression a new variable. -/
inductive Statement.Renamed (new : String) : Statement → Statement → Prop
  | parameter {d : Definition} {old} (param : old ∈ d.prototype.params) :
    Renamed new (.definition d) (.definition (d.renameParameter old new))
  | inBody {q : Prototype} {body body'} (h : body.LoopRenamed new body') :
    Renamed new (.definition ⟨q, body⟩) (.definition ⟨q, body'⟩)
  | inFormula {e e' : Expr} (h : e.LoopRenamed new e') : Renamed new (.expression e) (.expression e')

/-- A statement is what it was when the new name was not in it. -/
theorem Statement.Renamed.alpha {new : String} {s s' : Statement} (h : s.Renamed new s')
    (hnew : new ∉ s.variableNames) : s.Alpha s' := by
  cases h with
  | parameter param =>
    obtain ⟨hparams, hbody⟩ := not_or.mp (mt List.mem_append.mpr hnew)
    exact .definition (Definition.alpha_renameParameter param hparams hbody)
  | @inBody q body body' h =>
    obtain ⟨-, hbody⟩ := not_or.mp (mt List.mem_append.mpr hnew)
    have hkeeps : Expr.Keeps (Pairing.bindAll Eq q.params q.params) new body :=
      fun x hx => ⟨fun hsame => hbody (hsame ▸ hx), Pairing.bindAll_self rfl q.params⟩
    exact .definition ⟨rfl, rfl, h.alpha hkeeps⟩
  | inFormula h => exact .expression (h.alpha fun x hx => ⟨fun hsame => hnew (hsame ▸ hx), rfl⟩)

end Formulary
