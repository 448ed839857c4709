import Formulary.Proofs.Evaluation.Meaning

/-!
# Reports

An outcome is a report on a state if it is that state with some text written behind its output: the
scopes and the calls under way are what they were, after a value as after a fault. `Reports` says this
of an outcome, and that the result and the text meet a condition. It passes through sequences, and
what opens a scope or counts a call reports on the state from which it was begun.
-/

namespace Formulary.Evaluation

/-- A state with a text written behind its output. -/
def State.wrote (s : State) (out : String) : State := { s with output := s.output ++ out }

/-- A state with one more scope, the innermost. -/
def State.inFrame (s : State) (frame : Frame) : State := { s with scopes := frame :: s.scopes }

/-- What the scopes in force say of variables. -/
def State.env (s : State) : Env := fun name => Action.lookup? name s.scopes

/-- The state has so many calls under way, and these variables in force. -/
structure State.Sees (s : State) (n : Nat) (env : Env) : Prop where
  calls : s.activeCalls = n
  env_eq : s.env = env

namespace State

@[simp] theorem wrote_empty (s : State) : s.wrote "" = s := by
  simp [wrote]

@[simp] theorem wrote_wrote (s : State) (out more : String) :
    (s.wrote out).wrote more = s.wrote (out ++ more) := by
  simp [wrote, String.append_assoc]

/-- A table made of bindings says of variables what the bindings say. -/
theorem get?_ofList_eq (bindings : List (String × Float)) :
    (NameTable.ofList bindings).get? = Env.ofBindings bindings := by
  have hfold (t : Frame) (env : Env) (h : t.get? = env) :
      (bindings.foldl (fun t b => t.insert b.1 b.2) t).get? =
        bindings.foldl (fun env b => env.bind b.1 b.2) env := by
    induction bindings generalizing t env with
    | nil => exact h
    | cons b rest ih =>
      apply ih
      funext other
      rw [NameTable.get?_insert, h]
      rfl
  exact hfold {} Env.empty rfl

/-- In a single scope the variables are those of its bindings. -/
theorem env_scope (s : State) (bindings : List (String × Float)) :
    State.env { s with scopes := [.ofList bindings] } = Env.ofBindings bindings := by
  funext name
  rw [← get?_ofList_eq]
  unfold env Action.lookup? Action.lookup?
  cases (NameTable.ofList bindings).get? name <;> rfl

/-- A new innermost scope adds a binding. -/
theorem env_inFrame (s : State) (name : String) (x : Float) :
    (s.inFrame (.ofList [(name, x)])).env = s.env.bind name x := by
  funext other
  unfold env Env.bind inFrame
  rw [Action.lookup?, get?_ofList_eq]
  simp only [Env.ofBindings, List.foldl_cons, List.foldl_nil, Env.bind, Env.empty]
  split <;> simp_all

/-- A text makes no difference to what a state sees. -/
theorem Sees.wrote {s : State} {n : Nat} {env : Env} (h : s.Sees n env) (out : String) :
    (s.wrote out).Sees n env :=
  ⟨h.calls, h.env_eq⟩

/-- In a single scope a state sees its bindings. -/
theorem Sees.scope {s : State} {n : Nat} (h : s.activeCalls = n)
    (bindings : List (String × Float)) :
    State.Sees { s with scopes := [.ofList bindings] } n (.ofBindings bindings) :=
  ⟨h, s.env_scope bindings⟩

/-- In the frame of a loop a state sees its variable besides the others. -/
theorem Sees.inFrame {s : State} {n : Nat} {env : Env} (h : s.Sees n env) (name : String)
    (x : Float) : (s.inFrame (.ofList [(name, x)])).Sees n (env.bind name x) :=
  ⟨h.calls, by rw [env_inFrame, h.env_eq]⟩

end State

namespace Action

variable {α β γ : Type}

/-- Sequences may be taken together in either way. -/
theorem bind_assoc (a : Action α) (f : α → Action β) (g : β → Action γ) :
    (a >>= f) >>= g = a >>= fun x => f x >>= g := by
  funext s
  change Action.bind (Action.bind a f) g s = Action.bind a _ s
  unfold Action.bind
  cases a s <;> rfl

/-- A value before an action is handed on. -/
theorem pure_bind (x : α) (f : α → Action β) : (pure x : Action α) >>= f = f x := rfl

/-- Increasing a variable changes nothing but the scopes. -/
theorem increase_eq_value (name : String) (step : Float) (s : State) :
    ∃ scopes, increase name step s = .value () { s with scopes } := by
  unfold increase
  split
  · exact ⟨s.scopes, rfl⟩
  · split
    · exact ⟨s.scopes, rfl⟩
    · exact ⟨_, rfl⟩

end Action

namespace Outcome

variable {α β : Type}

/-- The outcome with a result, in a state. -/
def ended : Except Fault α → State → Outcome α
  | .ok a, after => .value a after
  | .error f, after => .fault f after

/-- The outcome with a result and a text; all else of the state is as it was. -/
def report (s : State) (out : String) (r : Except Fault α) : Outcome α := ended r (s.wrote out)

/-- An outcome is out of fuel, or reports a result and a text that meet a condition. -/
def Reports (s : State) (P : Except Fault α → String → Prop) (o : Outcome α) : Prop :=
  o = .outOfFuel ∨ ∃ r out, o = report s out r ∧ P r out

/-- An outcome that ended tells its result and its state. -/
theorem ended_inj {s s' : State} {r r' : Except Fault α} (h : ended r s = ended r' s') :
    r = r' ∧ s = s' := by
  cases r <;> cases r' <;> simp_all [ended]

/-- An outcome is out of fuel or has ended. -/
theorem outOfFuel_or_ended (o : Outcome α) : o = .outOfFuel ∨ ∃ r after, o = ended r after := by
  cases o with
  | value x after => exact .inr ⟨.ok x, after, rfl⟩
  | fault f after => exact .inr ⟨.error f, after, rfl⟩
  | outOfFuel => exact .inl rfl

/-- It is never both. -/
theorem outOfFuel_ne_ended (r : Except Fault α) (after : State) :
    (.outOfFuel : Outcome α) ≠ ended r after := by
  cases r <;> exact fun h => nomatch h

/-- An outcome whose state is changed at the end ended in the state before the change. -/
theorem ended_of_mapState {g : State → State} {o : Outcome α} {r : Except Fault α} {after : State}
    (h : Action.mapState g o = ended r after) : ∃ before, o = ended r before ∧ after = g before := by
  cases o <;> cases r <;> cases h <;> exact ⟨_, rfl, rfl⟩

/-- A sequence that ended had a value first and went on with it, or a fault. -/
theorem ended_of_bind {a : Action α} {f : α → Action β} {s last : State} {r : Except Fault β}
    (h : (a >>= f) s = ended r last) :
    (∃ x after, a s = ended (.ok x) after ∧ f x after = ended r last) ∨
      ∃ e, a s = ended (.error e) last ∧ r = .error e := by
  change Action.bind a f s = _ at h
  unfold Action.bind at h
  cases ha : a s with
  | value x after => exact .inl ⟨x, after, rfl, by rwa [ha] at h⟩
  | fault e after =>
    rw [ha] at h
    obtain ⟨hr, rfl⟩ := ended_inj (r := .error e) h
    exact .inr ⟨e, rfl, hr.symm⟩
  | outOfFuel =>
    rw [ha] at h
    exact absurd h (outOfFuel_ne_ended r last)

/-- A report behind a text reports both texts. -/
theorem report_wrote (s : State) (out more : String) (r : Except Fault α) :
    report (s.wrote out) more r = report s (out ++ more) r := by
  rw [report, report, State.wrote_wrote]

/-- A report tells its result and its text. -/
theorem report_inj {s : State} {out out' : String} {r r' : Except Fault α}
    (h : report s out r = report s out' r') : r = r' ∧ out = out' := by
  obtain ⟨rfl, hstate⟩ := ended_inj h
  have houtput : s.output ++ out = s.output ++ out' := congrArg State.output hstate
  simpa using houtput

/-- A value is a report in which nothing is written. -/
theorem pure_eq_report (x : α) (s : State) : (pure x : Action α) s = report s "" (.ok x) := by
  rw [report, State.wrote_empty]
  rfl

/-- So is a fault. -/
theorem stop_eq_report (f : Fault) (s : State) :
    (Action.stop f : Action α) s = report s "" (.error f) := by
  rw [report, State.wrote_empty]
  rfl

/-- So is the state itself. -/
theorem state_eq_report (s : State) : Action.state s = report s "" (.ok s) := by
  rw [report, State.wrote_empty]
  rfl

/-- Changing the state of an outcome that reports on another state, if the change leads back. -/
theorem mapState_report {g : State → State} {s s' : State}
    (hg : ∀ out, g (s'.wrote out) = s.wrote out) (out : String) (r : Except Fault α) :
    Action.mapState g (report s' out r) = report s out r := by
  cases r <;> simp [report, ended, Action.mapState, hg]

namespace Reports

variable {s s' : State} {P : Except Fault α → String → Prop} {R : Except Fault β → String → Prop}
  {a : Action α} {f : α → Action β} {g : State → State}

/-- A condition may be weakened. -/
theorem mono {o : Outcome α} {Q : Except Fault α → String → Prop} (h : o.Reports s P)
    (himp : ∀ r out, P r out → Q r out) : o.Reports s Q := by
  rcases h with h | ⟨r, out, h, hP⟩
  · exact .inl h
  · exact .inr ⟨r, out, h, himp r out hP⟩

/-- A value is reported, and nothing is written. -/
theorem pure {x : α} (h : P (.ok x) "") : ((pure x : Action α) s).Reports s P :=
  .inr ⟨.ok x, "", pure_eq_report x s, h⟩

/-- A fault is reported, and nothing is written. -/
theorem stop {e : Fault} (h : P (.error e) "") : ((Action.stop e : Action α) s).Reports s P :=
  .inr ⟨.error e, "", stop_eq_report e s, h⟩

/-- What reports on a state that was changed reports on the one before, once that is back. -/
theorem mapState {o : Outcome α} (hg : ∀ out, g (s'.wrote out) = s.wrote out)
    (h : o.Reports s' P) : (Action.mapState g o).Reports s P := by
  rcases h with rfl | ⟨r, out, rfl, hP⟩
  · exact .inl rfl
  · exact .inr ⟨r, out, mapState_report hg out r, hP⟩

/-- In a sequence whose state is changed back at its end, the second part begins behind the text of
the first. -/
theorem mapState_bind (hg : ∀ out, g (s'.wrote out) = s.wrote out) (ha : (a s').Reports s' P)
    (hgo : ∀ x out, P (.ok x) out →
      (Action.mapState g (f x (s'.wrote out))).Reports (s.wrote out) fun r more => R r (out ++ more))
    (hstop : ∀ e out, P (.error e) out → R (.error e) out) :
    (Action.mapState g ((a >>= f) s')).Reports s R := by
  change (Action.mapState g (Action.bind a f s')).Reports s R
  unfold Action.bind
  rcases ha with ha | ⟨r, out, ha, hP⟩
  · rw [ha]
    exact .inl rfl
  · rw [ha]
    cases r with
    | error e => exact .inr ⟨.error e, out, mapState_report hg out (.error e), hstop e out hP⟩
    | ok x =>
      rcases hgo x out hP with hgo | ⟨r, more, hgo, hR⟩
      · exact .inl hgo
      · exact .inr ⟨r, out ++ more, by rw [← report_wrote]; exact hgo, hR⟩

/-- In a sequence the second part begins behind the text of the first. -/
theorem bind (ha : (a s).Reports s P)
    (hgo : ∀ x out, P (.ok x) out →
      (f x (s.wrote out)).Reports (s.wrote out) fun r more => R r (out ++ more))
    (hstop : ∀ e out, P (.error e) out → R (.error e) out) : ((a >>= f) s).Reports s R := by
  have hid {γ : Type} (o : Outcome γ) : Action.mapState id o = o := by cases o <;> rfl
  have h := mapState_bind (g := id) (s := s) (f := f) (fun _ => rfl) ha
    (fun x out hP => by rw [hid]; exact hgo x out hP) hstop
  rwa [hid] at h

/-- What goes on after a value as after a fault begins behind the text of the first part. -/
theorem attempt {next : Except Fault α → Action β} (ha : (a s).Reports s P)
    (hgo : ∀ r out, P r out →
      (next r (s.wrote out)).Reports (s.wrote out) fun r' more => R r' (out ++ more)) :
    (Action.attempt a next s).Reports s R := by
  unfold Action.attempt
  rcases ha with ha | ⟨r, out, ha, hP⟩
  · rw [ha]
    exact .inl rfl
  · have hnext := hgo r out hP
    rw [ha]
    cases r <;>
    · rcases hnext with hnext | ⟨r', more, hnext, hR⟩
      · exact .inl hnext
      · exact .inr ⟨r', out ++ more, by rw [← report_wrote]; exact hnext, hR⟩

/-- Scopes of its own are gone after an action. -/
theorem inScopes {scopes : List Frame} (h : (a { s with scopes }).Reports { s with scopes } P) :
    (Action.inScopes scopes a s).Reports s P := by
  refine mapState ?_ h
  intro out
  rfl

/-- A call under way is over after an action. -/
theorem asCall (h : (a { s with activeCalls := s.activeCalls + 1 }).Reports
      { s with activeCalls := s.activeCalls + 1 } P) : (Action.asCall a s).Reports s P := by
  refine mapState ?_ h
  intro out
  rfl

end Reports

end Outcome

end Formulary.Evaluation
