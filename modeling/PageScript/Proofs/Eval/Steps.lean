import PageScript.Proofs.Eval.Simulation

/-!
# What steps are made of

Every single step of the evaluator, and every routine of the host, is put together from a few
operations on the machine.  So a property of evaluations that putting them together keeps holds of
all steps, as soon as it holds of these operations (`Eval.Closed`); and what may happen to a store
in a step is known as soon as it is known for the few changes that steps make
(`Store.Tolerates`).

* `Eval.outcome`, `Action.outcome`   what an evaluation, an action on variables leaves;
* `StepsAlike.closed`                where only equals correspond, corresponding steps are one step,
                                     and it has every property that is kept.
-/

namespace PageScript

open Eval

/-! ## outcomes -/

/-- what an evaluation leaves: its result or an error, and the machine -/
def Eval.outcome {α : Type} (x : Eval α) (env : Env) (m : Machine) :
    Except RuntimeError α × Machine :=
  (x.run env).run.run m

/-- what an action on variables leaves while some things are held -/
def Action.outcome {α : Type} (x : Action α) (held : List Ref) (s : Store) :
    Except RuntimeFault α × Store :=
  (x.run held).run.run s

section

variable {α β : Type}

theorem mapError_eq_ok {ε ε' : Type} {f : ε → ε'} {r : Except ε α} {a : α}
    (h : r.mapError f = .ok a) : r = .ok a := by
  cases r with
  | error e => cases h
  | ok b => exact congrArg Except.ok (Except.ok.inj h)

theorem Eval.outcome_bind (x : Eval α) (f : α → Eval β) (env : Env) (m : Machine) :
    (x >>= f).outcome env m
      = match x.outcome env m with
        | (.ok a, m₁) => (f a).outcome env m₁
        | (.error e, m₁) => (.error e, m₁) := by
  simp only [outcome, ReaderT.run_bind, ExceptT.run_bind, StateT.run_bind]
  rcases (x.run env).run.run m with ⟨_ | a, m₁⟩ <;> rfl

theorem Eval.outcome_bind_of_ok {x : Eval α} {env : Env} {m m₁ : Machine} {a : α}
    (h : x.outcome env m = (.ok a, m₁)) (f : α → Eval β) :
    (x >>= f).outcome env m = (f a).outcome env m₁ := by
  rw [outcome_bind, h]

theorem Eval.outcome_bind_of_error {x : Eval α} {env : Env} {m m₁ : Machine} {e : RuntimeError}
    (h : x.outcome env m = (.error e, m₁)) (f : α → Eval β) :
    (x >>= f).outcome env m = (.error e, m₁) := by
  rw [outcome_bind, h]

theorem Eval.outcome_tryCatch (x : Eval α) (f : RuntimeError → Eval α) (env : Env) (m : Machine) :
    (tryCatch x f).outcome env m
      = match x.outcome env m with
        | (.ok a, m₁) => (.ok a, m₁)
        | (.error e, m₁) => (f e).outcome env m₁ := by
  simp only [outcome, ReaderT.run_tryCatch, ExceptT.run_tryCatch, StateT.run_bind]
  rcases (x.run env).run.run m with ⟨_ | a, m₁⟩ <;> rfl

theorem Eval.outcome_runBlock (scope : ScopeId) (block : Block) (env : Env) (m : Machine) :
    (runBlock scope block).outcome env m
      = (runWith (invoke env.config.maxCallDepth) scope block).outcome env m := by
  have hread : (read : Eval Env).outcome env m = (.ok env, m) := rfl
  rw [runBlock, outcome_bind, hread]

theorem Eval.outcome_runExpr (scope : ScopeId) (e : Expr) (env : Env) (m : Machine) :
    (runExpr scope e).outcome env m
      = (eval (invoke env.config.maxCallDepth) scope e).outcome env m := by
  have hread : (read : Eval Env).outcome env m = (.ok env, m) := rfl
  rw [runExpr, outcome_bind, hread]

/-- everything that is held from outside the store of a machine -/
def Env.heldIn (env : Env) (m : Machine) : List Ref :=
  if env.keepsOutput then env.held ++ m.output.toList.flatMap Value.refs else env.held

theorem Eval.outcome_held (env : Env) (m : Machine) :
    held.outcome env m = (.ok (env.heldIn m), m) := by
  obtain ⟨_, _, keeps, _⟩ := env
  cases keeps <;> rfl

theorem Eval.outcome_answer (index : Nat) (home : ScopeId) (args : List SlotId) (env : Env)
    (m : Machine) :
    (answer index home args).outcome env m
      = (.ok (env.callback index (env.heldIn m) home args m.store).1,
          { m with store := (env.callback index (env.heldIn m) home args m.store).2 }) := by
  have hread : (read : Eval Env).outcome env m = (.ok env, m) := rfl
  rw [answer, outcome_bind, hread]
  show (held >>= _ : Eval Answer).outcome env m = _
  rw [outcome_bind, outcome_held]
  rfl

theorem Eval.outcome_isAlive (r : Ref) (env : Env) (m : Machine) :
    (isAlive r).outcome env m = (.ok (m.store.alive (env.heldIn m) r), m) := by
  have hstore : store.outcome env m = (.ok m.store, m) := rfl
  rw [isAlive, outcome_bind, hstore]
  show (held >>= _ : Eval Bool).outcome env m = _
  rw [outcome_bind, outcome_held]
  rfl

theorem Eval.outcome_check (l : Location) (r : Except RuntimeFault α) (env : Env) (m : Machine) :
    (check l r).outcome env m = (r.mapError fun f => ⟨l, f⟩, m) := by
  cases r <;> rfl

theorem Eval.outcome_act (l : Location) (x : Action α) (env : Env) (m : Machine) :
    (act l x).outcome env m
      = ((x.outcome (env.heldIn m) m.store).1.mapError fun f => ⟨l, f⟩,
          { m with store := (x.outcome (env.heldIn m) m.store).2 }) := by
  rw [act, outcome_bind, outcome_held]
  exact outcome_check l _ env _

theorem Action.outcome_bind (x : Action α) (f : α → Action β) (held : List Ref) (s : Store) :
    (x >>= f).outcome held s
      = match x.outcome held s with
        | (.ok a, s₁) => (f a).outcome held s₁
        | (.error e, s₁) => (.error e, s₁) := by
  simp only [outcome, ReaderT.run_bind, ExceptT.run_bind, StateT.run_bind]
  rcases (x.run held).run.run s with ⟨_ | a, s₁⟩ <;> rfl

theorem Action.outcome_ask (question : Store → List Ref → Except RuntimeFault α)
    (held : List Ref) (s : Store) : (ask question).outcome held s = (question s held, s) := by
  have hstore : (get : Action Store).outcome held s = (.ok s, s) := rfl
  have hheld : (read : Action (List Ref)).outcome held s = (.ok held, s) := rfl
  rw [ask, outcome_bind, hstore]
  dsimp only
  rw [outcome_bind, hheld]
  dsimp only
  cases question s held <;> rfl

end

/-! ## changes of the store -/

/-- a relation from a store to a later one that steps in fit scopes respect -/
structure Store.Tolerates (R : Store → Store → Prop) (fit : ScopeId → Prop) : Prop where
  refl : ∀ s, R s s
  trans : ∀ {s s₁ s₂}, R s s₁ → R s₁ s₂ → R s s₂
  newSlot : ∀ s v, R s (s.newSlot v).2
  setSlot : ∀ s id v, R s (s.setSlot id v)
  bind : ∀ s id n slot, R s (s.bind id n slot)
  setExplicit : ∀ s id b, R s (s.setExplicit id b)
  addField : ∀ s id n slot, R s (s.addField id n slot)
  newInstance : ∀ s d {home}, fit home → R s (s.newInstance d home).2
  hoist : ∀ s (b : Block) {c}, fit c → R s (b.hoist c s)

namespace Store.Tolerates

variable {R : Store → Store → Prop} {fit : ScopeId → Prop} (T : Store.Tolerates R fit)
include T

theorem lookup (use : Use) (id : ScopeId) (name : String) (held : List Ref) (s : Store) :
    R s ((Action.lookup use id name).outcome held s).2 := by
  rw [Action.lookup, Action.outcome_bind, Action.outcome_ask]
  rcases s.find held use name id with e | _ | slot | object
  · exact T.refl s
  · exact T.refl s
  · exact T.refl s
  · exact T.newSlot s (.object object)

theorem resolve (id : ScopeId) (name : String) (held : List Ref) (s : Store) :
    R s ((Action.resolve id name).outcome held s).2 := by
  have hlookup := T.lookup .variable id name held s
  rw [Action.resolve, Action.outcome_bind]
  generalize (Action.lookup .variable id name).outcome held s = o at hlookup ⊢
  rcases o with ⟨e | _ | slot, s₁⟩
  · exact hlookup
  · show R s (Action.outcome (if (s₁.scope id).isExplicit then throw (.undeclared name)
      else Action.change (·.declare id name .empty)) held s₁).2
    split
    · exact hlookup
    · exact T.trans hlookup (T.trans (T.newSlot s₁ .empty) (T.bind _ id name _))
  · exact hlookup

theorem assign (id : ScopeId) (name : String) (v : Value) (held : List Ref) (s : Store) :
    R s ((Action.assign id name v).outcome held s).2 := by
  have hresolve := T.resolve id name held s
  rw [Action.assign, Action.outcome_bind]
  generalize (Action.resolve id name).outcome held s = o at hresolve ⊢
  rcases o with ⟨e | slot, s₁⟩
  · exact hresolve
  · exact T.trans hresolve (T.setSlot s₁ slot v)

end Store.Tolerates

/-! ## properties that are kept -/

/-- a property of evaluations that putting them together keeps, where changes of the store are as
`R` says and callbacks of the host belong to fit scopes -/
structure Eval.Closed (P : ∀ {α : Type}, Eval α → Prop) (R : Store → Store → Prop)
    (fit : ScopeId → Prop) : Prop where
  pure : ∀ {α : Type} (a : α), P (pure a : Eval α)
  bind : ∀ {α β : Type} {x : Eval α} {f : α → Eval β}, P x → (∀ a, P (f a)) → P (x >>= f)
  tryCatch : ∀ {α : Type} {x : Eval α} {f : RuntimeError → Eval α}, P x → (∀ e, P (f e)) →
    P (tryCatch x f)
  fail : ∀ {α : Type} (l : Location) (f : RuntimeFault), P (fail l f : Eval α)
  held : P held
  store : P store
  write : ∀ v, P (write v)
  change : ∀ {α : Type} {f : Store → α × Store}, (∀ s, R s (f s).2) → P (change f)
  answer : ∀ (index : Nat) {home : ScopeId} (args : List SlotId), fit home →
    P (answer index home args)

namespace Eval.Closed

variable {P : ∀ {α : Type}, Eval α → Prop} {R : Store → Store → Prop} {fit : ScopeId → Prop}
  (C : Eval.Closed @P R fit)
include C

theorem check {α : Type} (l : Location) (r : Except RuntimeFault α) : P (check l r) := by
  cases r with
  | ok a => exact C.pure a
  | error f => exact C.fail l f

theorem modifyStore {f : Store → Store} (hf : ∀ s, R s (f s)) : P (modifyStore f) := by
  show P (Eval.change fun s => ((), f s))
  exact C.change hf

theorem reading {α : Type} (f : Store → α) : P (do return f (← Eval.store)) :=
  C.bind C.store fun s => C.pure (f s)

theorem isAlive (r : Ref) : P (isAlive r) :=
  C.bind C.store fun _ => C.bind C.held fun _ => C.pure _

theorem act {α : Type} (l : Location) {x : Action α} (hx : ∀ held s, R s (x.outcome held s).2) :
    P (act l x) := by
  refine C.bind C.held fun held => ?_
  show P (Eval.change (fun s => x.outcome held s) >>= fun r => Eval.check l r)
  exact C.bind (C.change (hx held)) fun r => C.check l r

theorem forM {α : Type} {f : α → Eval Unit} (hf : ∀ a, P (f a)) : ∀ as : List α, P (as.forM f)
  | [] => C.pure ()
  | a :: as => C.bind (hf a) fun _ => forM hf as

end Eval.Closed

/-! ## routines of the host -/

namespace Routine

variable {P : ∀ {α : Type}, Eval α → Prop} {R : Store → Store → Prop} {fit : ScopeId → Prop}
  (C : Eval.Closed @P R fit)
include C

theorem closed_attempt {α : Type} (l : Location) {x : Action α}
    (hx : ∀ held s, R s (x.outcome held s).2) : P (attempt l x) :=
  C.tryCatch (C.act l hx) fun _ => C.fail l _

theorem closed_followPath (l : Location) (slot : SlotId) (ns : List String) :
    P (followPath l slot ns) := by
  induction ns generalizing slot with
  | nil => exact C.pure slot
  | cons n ns ih =>
    refine C.bind (C.reading (·.slot slot)) fun v => ?_
    cases v with
    | object id =>
      refine C.bind C.store fun s => ?_
      cases s.field? id n with
      | some slot => exact ih slot
      | none => exact C.fail l _
    | _ => exact C.fail l _

variable (T : Store.Tolerates R fit)
include T

theorem closed_lookAt (l : Location) (home : ScopeId) (text : String) :
    P (lookAt l home text) := by
  unfold lookAt
  split
  · exact C.fail l _
  · rename_i name names _
    refine C.bind (closed_attempt C l (T.lookup .variable home name)) fun found => ?_
    cases found with
    | none => exact C.fail l _
    | some slot =>
      exact C.bind (closed_followPath C l slot names) fun slot => C.reading (·.slot slot)

theorem closed_incrementSlot (id : SlotId) : P (incrementSlot id) := by
  refine C.bind (C.reading (·.slot id)) fun v => ?_
  cases v with
  | integer n => exact C.modifyStore fun s => T.setSlot s id _
  | _ => exact C.pure ()

theorem closed_call (r : Routine) (l : Location) {home : ScopeId} (hhome : fit home)
    (args : List SlotId) : P (r.call l home args) := by
  refine C.bind C.store fun s => ?_
  split
  · exact C.bind (C.write _) fun _ => C.pure _
  · exact C.fail l _
  · exact C.pure _
  · cases s.slot _ with
    | integer n => exact C.pure _
    | _ => exact C.fail l _
  · exact C.fail l _
  · exact C.pure _
  · exact C.pure _
  · exact C.fail l _
  · exact C.bind (C.forM (closed_incrementSlot C T) args) fun _ => C.pure _
  · refine C.bind (C.modifyStore fun s => T.setSlot s _ _) fun _ => ?_
    exact C.bind (C.modifyStore fun s => T.setSlot s _ _) fun _ => C.pure _
  · exact C.fail l _
  · exact C.pure _
  · exact C.fail l _
  · exact C.fail l _
  · exact closed_lookAt C T l home _
  · exact C.fail l _
  · exact C.bind (closed_attempt C l (T.assign home _ _)) fun _ => C.pure _
  · exact C.fail l _
  · split
    · exact C.bind (C.modifyStore fun s => T.setExplicit s home _) fun _ => C.pure _
    · exact C.bind (C.pure _) fun _ => C.pure _
  · refine C.bind (C.answer _ args hhome) fun answer => ?_
    refine C.bind (C.forM C.write answer.written) fun _ => ?_
    cases answer.result with
    | ok v => exact C.pure v
    | error message => exact C.fail l _

end Routine

/-! ## steps -/

/-- where only equals correspond, corresponding steps are one step, and it has every property that
is kept -/
theorem StepsAlike.closed {P : ∀ {α : Type}, Eval α → Prop} {R : Store → Store → Prop}
    {fit : ScopeId → Prop} {uses : Routine → Prop} (C : Eval.Closed @P R fit)
    (T : Store.Tolerates R fit) {α : Type} {p p' : Eval α} (h : StepsAlike .equal fit uses p p') :
    p = p' ∧ P p := by
  cases h with
  | check r hl => exact ⟨by rw [show _ = _ from hl], C.check _ r⟩
  | getSlot id => exact ⟨rfl, C.reading _⟩
  | setSlot id v => exact ⟨rfl, C.modifyStore fun s => T.setSlot s id v⟩
  | newSlot v => exact ⟨rfl, C.change fun s => T.newSlot s v⟩
  | isAlive r => exact ⟨rfl, C.isAlive r⟩
  | isInstance id => exact ⟨rfl, C.reading _⟩
  | resultSlot id => exact ⟨rfl, C.reading _⟩
  | member? id hn => exact ⟨by rw [show _ = _ from hn], C.reading _⟩
  | define id v hn =>
    refine ⟨by rw [show _ = _ from hn], C.change fun s => ?_⟩
    exact T.trans (T.newSlot s v) (T.addField _ id _ _)
  | resolve _ hl hn =>
    exact ⟨by rw [show _ = _ from hl, show _ = _ from hn], C.act _ (T.resolve _ _)⟩
  | lookup use _ hl hn =>
    exact ⟨by rw [show _ = _ from hl, show _ = _ from hn], C.act _ (T.lookup use _ _)⟩
  | assign v _ hl hn =>
    exact ⟨by rw [show _ = _ from hl, show _ = _ from hn], C.act _ (T.assign _ _ v)⟩
  | newInstance hd hhome => exact ⟨by rw [hd.eq], C.change fun s => T.newInstance s _ hhome⟩
  | hoist hb hc => exact ⟨by rw [hb.eq], C.modifyStore fun s => T.hoist s _ hc⟩
  | call args _ hhome hl =>
    exact ⟨by rw [show _ = _ from hl], Routine.closed_call C T _ _ hhome args⟩

end PageScript
