import PageScript.Proofs.Shelter
import PageScript.Proofs.Store.Bindings
import PageScript.Proofs.Store.Strict

/-!
# Where names have to be declared

Making declarations compulsory only adds errors about names that are not declared.  A run where they
are compulsory and the same run where they are not take the same steps, until the first one meets
such a name: its store is the other one's, but for the setting of the scopes (`Eval.strictening`).

And where declarations are compulsory from the start, they are so in every scope that is ever
created (`Store.AllExplicit`); then names are bound by declarations, parameters and members of
instances only (`Store.Binds`).

* `Session.Twins`                   two such sessions in which a host does the same;
* `Session.explicit_only_refuses`   how the runs of the two compare, and what gets bound.
-/

namespace PageScript

open Eval Runner

/-! ## stores of a host that offers nothing but `response` -/

namespace Store

/-- scopes are nested, with `n` of them at least, and the only routine of the host is `write` -/
structure Orderly (n : Nat) (s : Store) : Prop where
  nested : s.Nested n
  offers : s.Offers (· = .write)

theorem Orderly.mono {n n' : Nat} {s : Store} (h : s.Orderly n') (hle : n ≤ n') : s.Orderly n :=
  ⟨h.nested.mono hle, h.offers⟩

theorem Orderly.hoist {n : Nat} {s : Store} (h : s.Orderly n) {c : ScopeId} (hc : c.index < n)
    (b : Block) : (b.hoist c s).Orderly n :=
  ⟨h.nested.hoistBlock hc b, (s.equips_hoist c b).furnished.offers h.offers⟩

theorem Orderly.newInstance {n : Nat} {s : Store} (h : s.Orderly n) (d : ClassDecl) {home : ScopeId}
    (hhome : home.index < n) : (s.newInstance d home).2.Orderly (s.scopes.size + 1) :=
  ⟨h.nested.newInstance d hhome, (s.equips_newInstance d home).furnished.offers h.offers⟩

theorem functions_bindParams (byRef : Bool) (c : ScopeId) (ps : List Param) (args : List SlotId)
    (s : Store) : (bindParams byRef c ps args s).functions = s.functions := by
  induction ps generalizing args s with
  | nil => rfl
  | cons p ps ih =>
    cases args with
    | nil => rfl
    | cons arg args =>
      simp only [bindParams]
      split
      · exact ih args _
      · exact ih args _

theorem Orderly.activate {n : Nat} {s : Store} (h : s.Orderly n) (byRef : Bool) (d : FunctionDecl)
    {home : ScopeId} (hhome : home.index < n) (args : List SlotId) :
    (activate byRef d home args s).2.Orderly (s.scopes.size + 1) := by
  refine ⟨h.nested.activate byRef d hhome args, ?_⟩
  -- parameters add no function, whatever is passed
  have hparams : (bindParams byRef ⟨s.scopes.size⟩ d.params args
      (s.newChild home (resultName d)).2).Offers (· = .write) := by
    intro f n x r hf
    rw [Store.function, functions_bindParams] at hf
    exact h.offers f n x r hf
  exact (equips_hoist _ _ d.body).furnished.offers hparams

/-- what steps in scopes below `n` do to a store leaves it orderly -/
theorem tolerates_orderly (n : Nat) :
    Store.Tolerates (fun s s' => s.Orderly n → s'.Orderly n) fun c => c.index < n where
  refl _ h := h
  trans h h' := h' ∘ h
  newSlot _ v h := ⟨h.nested.newSlot v, h.offers⟩
  setSlot _ id v h := ⟨h.nested.setSlot id v, h.offers⟩
  bind _ id name slot h := ⟨h.nested.bind id name slot, h.offers⟩
  setExplicit _ id _ h := ⟨h.nested.modifyScope id fun _ => rfl, h.offers⟩
  addField _ id name slot h := ⟨h.nested.addField id name slot, h.offers⟩
  newInstance _ d _ hhome h := (h.newInstance d hhome).mono (h.nested.size.trans (Nat.le_succ _))
  hoist _ b _ hc h := h.hoist hc b

end Store

/-! ## actions on variables -/

/-- an action on variables that the setting of the scopes does not change, unless it refuses a
name -/
def Action.Steadfast {α : Type} (n : Nat) (x : Action α) : Prop :=
  ∀ H s, Store.Orderly n s →
    (∃ name, (x.outcome H s.strict).1 = .error (.undeclared name)) ∨
      x.outcome H s.strict = ((x.outcome H s).1, (x.outcome H s).2.strict) ∧
        (x.outcome H s).2.Orderly n

namespace Action

theorem steadfast_lookup (n : Nat) (use : Use) (c : ScopeId) (name : String) :
    (lookup use c name).Steadfast n := by
  intro H s hs
  refine .inr ⟨?_, (Store.tolerates_orderly n).lookup use c name H s hs⟩
  rw [outcome_lookup, outcome_lookup, Store.find_strict]
  rcases s.find H use name c with f | _ | slot | o <;> rfl

theorem steadfast_resolve {n : Nat} {c : ScopeId} (hc : c.index < n) (name : String) :
    (resolve c name).Steadfast n := by
  intro H s hs
  have horderly := (Store.tolerates_orderly n).resolve c name H s hs
  rw [outcome_resolve] at horderly ⊢
  rw [outcome_resolve, Store.find_strict]
  generalize s.find H .variable name c = found at horderly ⊢
  rcases found with f | _ | slot | o
  · exact .inr ⟨rfl, horderly⟩
  · -- here alone the setting counts
    left
    refine ⟨name, ?_⟩
    rw [s.isExplicit_strict (hc.trans_le hs.nested.size)]
    rfl
  · exact .inr ⟨rfl, horderly⟩
  · exact .inr ⟨rfl, horderly⟩

theorem steadfast_assign {n : Nat} {c : ScopeId} (hc : c.index < n) (name : String) (v : Value) :
    (assign c name v).Steadfast n := by
  intro H s hs
  have horderly := (Store.tolerates_orderly n).assign c name v H s hs
  rw [outcome_assign] at horderly ⊢
  rw [outcome_assign]
  rcases steadfast_resolve hc name H s hs with ⟨refused, hrefused⟩ | ⟨hsame, -⟩
  · left
    refine ⟨refused, ?_⟩
    generalize (resolve c name).outcome H s.strict = o at hrefused ⊢
    rcases o with ⟨f | slot, s₁⟩
    · obtain rfl := Except.error.inj hrefused
      rfl
    · cases hrefused
  · right
    rw [hsame]
    refine ⟨?_, horderly⟩
    generalize (resolve c name).outcome H s = o
    rcases o with ⟨f | slot, s₁⟩ <;> rfl

theorem steadfast_findClass (n : Nat) (c : ScopeId) (name : String) :
    (ask fun s H => s.findClass H name c).Steadfast n := by
  intro H s hs
  rw [outcome_ask, outcome_ask, Store.findClass_strict]
  exact .inr ⟨rfl, hs⟩

end Action

/-! ## runs side by side -/

/-- what a run is given where names need not be declared; runs do not look at this setting -/
def Env.lax (env : Env) : Env := { env with config.isExplicit := false }

/-- machines that differ in the setting of the scopes alone -/
structure Machine.Twin (n : Nat) (m m' : Machine) : Prop where
  store : m.store = m'.store.strict
  orderly : m'.store.Orderly n
  steps : m.steps = m'.steps
  output : m.output = m'.output

namespace Eval

variable {α β : Type}

/-- an outcome beside the outcome where names need not be declared: a name is refused, or they are
the same -/
inductive Strictens (n : Nat) (V : Nat → α → α → Prop) :
    Except RuntimeError α × Machine → Except RuntimeError α × Machine → Prop
  | ok {n' a b m m'} : n ≤ n' → Machine.Twin n' m m' → V n' a b →
    Strictens n V (.ok a, m) (.ok b, m')
  | error {e m m'} : Machine.Twin n m m' → Strictens n V (.error e, m) (.error e, m')
  | refused {l name m o} : Strictens n V (.error ⟨l, .undeclared name⟩, m) o

/-- evaluations that go alike, whether names have to be declared or not -/
def Strict (n : Nat) (V : Nat → α → α → Prop) (x y : Eval α) : Prop :=
  ∀ env m m', Machine.Twin n m m' → Strictens n V (x.outcome env m) (y.outcome env.lax m')

theorem heldIn_lax {n : Nat} {m m' : Machine} (h : m.Twin n m') (env : Env) :
    env.lax.heldIn m' = env.heldIn m := by
  simp only [Env.heldIn, h.output]
  rfl

theorem strict_reading {n : Nat} {V : Nat → α → α → Prop} (f : Store → α)
    (hf : ∀ s : Store, f s.strict = f s) (hV : ∀ s : Store, s.Orderly n → V n (f s) (f s)) :
    Strict n V (do return f (← store)) (do return f (← store)) := by
  intro env m m' h
  refine .ok le_rfl h ?_
  rw [h.store, hf]
  exact hV m'.store h.orderly

theorem strict_change {n n' : Nat} {V : Nat → α → α → Prop} {f : Store → α × Store}
    (hle : n ≤ n') (hf : ∀ s : Store, s.Orderly n → f s.strict = ((f s).1, (f s).2.strict))
    (hs : ∀ s : Store, s.Orderly n → (f s).2.Orderly n') (hV : ∀ s : Store, V n' (f s).1 (f s).1) :
    Strict n V (change f) (change f) := by
  intro env m m' h
  have hchange := hf m'.store h.orderly
  refine .ok hle ⟨?_, hs m'.store h.orderly, h.steps, h.output⟩ ?_
  · show (f m.store).2 = (f m'.store).2.strict
    rw [h.store, hchange]
  · rw [h.store, hchange]
    exact hV m'.store

theorem strict_check {n : Nat} (l : Location) (r : Except RuntimeFault α) :
    Strict n (fun _ => Eq) (check l r) (check l r) := by
  intro env m m' h
  cases r with
  | error f => exact .error h
  | ok a => exact .ok le_rfl h rfl

theorem strict_isAlive {n : Nat} (r : Ref) :
    Strict n (fun _ => Eq) (isAlive r) (isAlive r) := by
  intro env m m' h
  rw [outcome_isAlive, outcome_isAlive, heldIn_lax h, h.store, Store.alive_strict]
  exact .ok le_rfl h rfl

theorem strict_act {n : Nat} {V : Nat → α → α → Prop} (l : Location) {x : Action α}
    (hx : x.Steadfast n) (hV : ∀ H s a, Store.Orderly n s → (x.outcome H s).1 = .ok a → V n a a) :
    Strict n V (act l x) (act l x) := by
  intro env m m' h
  rw [outcome_act, outcome_act, heldIn_lax h, h.store]
  have hV := hV (env.heldIn m) m'.store
  rcases hx (env.heldIn m) m'.store h.orderly with ⟨name, hrefused⟩ | ⟨hsame, horderly⟩
  · rw [hrefused]
    exact .refused
  · rw [hsame]
    generalize x.outcome (env.heldIn m) m'.store = o at horderly hV ⊢
    rcases o with ⟨f | a, s₁⟩
    · exact .error ⟨rfl, horderly, h.steps, h.output⟩
    · exact .ok le_rfl ⟨rfl, horderly, h.steps, h.output⟩ (hV a h.orderly rfl)

theorem strict_write {n : Nat} (l : Location) (home : ScopeId) (args : List SlotId) :
    Strict n (fun _ => Eq) (Routine.write.call l home args) (Routine.write.call l home args) := by
  intro env m m' h
  match args with
  | [slot] =>
    refine .ok le_rfl { h with output := ?_ } rfl
    show m.output.push (m.store.slot slot) = m'.output.push (m'.store.slot slot)
    rw [h.output, h.store]
    rfl
  | [] => exact .error h
  | _ :: _ :: _ => exact .error h

theorem strict_step {n : Nat} {p p' : Eval α}
    (h : StepsAlike .equal (fun c => c.index < n) (· = .write) p p') :
    Strict n (fun _ => Eq) p p' := by
  cases h with
  | check r hl =>
    obtain rfl := hl
    exact strict_check _ r
  | getSlot id => exact strict_reading _ (fun _ => rfl) fun _ _ => rfl
  | setSlot id v =>
    exact strict_change (f := fun s => ((), s.setSlot id v)) le_rfl (fun _ _ => rfl)
      (fun s => (Store.tolerates_orderly n).setSlot s id v) fun _ => rfl
  | newSlot v =>
    exact strict_change le_rfl (fun _ _ => rfl) (fun s => (Store.tolerates_orderly n).newSlot s v)
      fun _ => rfl
  | isAlive r => exact strict_isAlive r
  | isInstance id => exact strict_reading _ (fun _ => rfl) fun _ _ => rfl
  | resultSlot id => exact strict_reading _ (fun s => s.result_strict id) fun _ _ => rfl
  | member? id hn =>
    obtain rfl := hn
    exact strict_reading _ (fun _ => rfl) fun _ _ => rfl
  | define id v hn =>
    obtain rfl := hn
    refine strict_change le_rfl (fun _ _ => rfl) (fun s hs => ?_) fun _ => rfl
    have hslot := (Store.tolerates_orderly n).newSlot s v hs
    exact (Store.tolerates_orderly n).addField _ id _ _ hslot
  | resolve hc hl hn =>
    obtain rfl := hl
    obtain rfl := hn
    exact strict_act _ (Action.steadfast_resolve hc _) fun _ _ _ _ _ => rfl
  | lookup use hc hl hn =>
    obtain rfl := hl
    obtain rfl := hn
    exact strict_act _ (Action.steadfast_lookup n use _ _) fun _ _ _ _ _ => rfl
  | assign v hc hl hn =>
    obtain rfl := hl
    obtain rfl := hn
    exact strict_act _ (Action.steadfast_assign hc _ v) fun _ _ _ _ _ => rfl
  | newInstance hd hhome =>
    obtain rfl := hd.eq
    refine strict_change le_rfl (fun s hs => ?_) (fun s hs => ?_) fun _ => rfl
    · exact s.strict_newInstance _ (hhome.trans_le hs.nested.size)
    · exact (hs.newInstance _ hhome).mono (hs.nested.size.trans (Nat.le_succ _))
  | hoist hb hc =>
    obtain rfl := hb.eq
    exact strict_change (f := fun s => ((), Block.hoist _ s _)) le_rfl
      (fun s _ => congrArg (Prod.mk ()) (Store.strict_hoist _ _ s).symm)
      (fun s hs => hs.hoist hc _) fun _ => rfl
  | call args hroutine _ hl =>
    obtain rfl := hroutine
    obtain rfl := hl
    exact strict_write _ _ args

/-- evaluations where names have to be declared beside evaluations where they need not -/
def strictening : Simulation Nat Eval Eval where
  like := .equal
  scope n c := c.index < n
  scope_mono := @ScopeId.index_lt_of_le
  routine r := r = .write
  rel := Strict
  pure hab _ _ _ h := .ok le_rfl h hab
  bind {_ _ n _ _ x y f g} hx hf env m m' h := by
    have hxy := hx env m m' h
    rw [outcome_bind, outcome_bind]
    generalize x.outcome env m = o at hxy ⊢
    generalize y.outcome env.lax m' = o' at hxy ⊢
    cases hxy with
    | @ok n' a b m₁ m₁' hle htwin hab =>
      have hrest := hf n' a b hle hab env m₁ m₁' htwin
      dsimp only
      generalize (f a).outcome env m₁ = r at hrest ⊢
      generalize (g b).outcome env.lax m₁' = r' at hrest ⊢
      cases hrest with
      | ok hle' htwin' hab' => exact .ok (hle.trans hle') htwin' hab'
      | error htwin' => exact .error { htwin' with orderly := htwin'.orderly.mono hle }
      | refused => exact .refused
    | error htwin => exact .error htwin
    | refused => exact .refused
  holding refs hx env m m' h := hx { env with held := refs ++ env.held } m m' h
  start {_ _ l _} _ hl env m m' h := by
    obtain rfl := hl
    show Strictens _ _ ((countStep l).outcome env m) ((countStep l).outcome env.lax m')
    rw [outcome_countStep, outcome_countStep, h.steps]
    have htwin : Machine.Twin _ { m with steps := m'.steps + 1 }
        { m' with steps := m'.steps + 1 } := { h with steps := rfl }
    show Strictens _ _ (env.config.budgetAt l (m'.steps + 1), _) (env.config.budgetAt l _, _)
    rcases env.config.budgetAt l (m'.steps + 1) with e | a
    · exact .error htwin
    · exact .ok le_rfl htwin rfl
  fail hl hf env m m' h := by
    obtain rfl := hl
    obtain rfl := hf.eq
    exact .error h
  unknown {n c l _ name _} hc _ _ env m m' h := by
    have hexplicit : (m.store.scope c).isExplicit = true := by
      rw [h.store]
      exact m'.store.isExplicit_strict (hc.trans_le h.orderly.nested.size)
    have hrefused : ((if (m.store.scope c).isExplicit then Eval.fail l (.undeclared name)
        else pure .empty : Eval Value)).outcome env m = (.error ⟨l, .undeclared name⟩, m) := by
      rw [hexplicit]
      rfl
    show Strictens _ _ (((if (m.store.scope c).isExplicit then Eval.fail l (.undeclared name)
        else pure .empty : Eval Value)).outcome env m) _
    rw [hrefused]
    exact .refused
  same h := strict_step h
  findClass {n c l l' name name'} hc hl hn := by
    obtain rfl := hl
    obtain rfl := hn
    refine strict_act l (Action.steadfast_findClass n c name) fun H s found hs hfound => ?_
    cases found with
    | none => exact .none
    | some p =>
      rw [Action.outcome_ask] at hfound
      exact .some ⟨p.1.alike_self, rfl, (hs.nested.findClass_le hfound).trans_lt hc⟩
  function {n} id env m m' h := by
    have hsame : m.store.function id = m'.store.function id := by
      rw [h.store]
      rfl
    have hle : n ≤ m'.store.scopes.size := h.orderly.nested.size
    refine .ok hle { h with orderly := ⟨h.orderly.nested.all, h.orderly.offers⟩ } ?_
    rw [hsame]
    refine ⟨Function.alike_self _, h.orderly.nested.home id, ?_⟩
    cases hf : m'.store.function id with
    | script d home => trivial
    | host name home r => exact h.orderly.offers id name home r hf
  enter {n d d' home} args hd hhome env m m' h := by
    obtain rfl := hd.eq
    have hlt := hhome.trans_le h.orderly.nested.size
    have hactivate := m'.store.strict_activate env.config.byRef d hlt args
    have hle : n ≤ m'.store.scopes.size + 1 := h.orderly.nested.size.trans (Nat.le_succ _)
    refine .ok hle ⟨?_, h.orderly.activate _ d hhome args, h.steps, h.output⟩ ?_
    · show (activate env.config.byRef d home args m.store).2 = _
      rw [h.store, hactivate]
      rfl
    · show (activate env.config.byRef d home args m.store).1 = _ ∧
        (activate env.config.byRef d home args m.store).1.index < _
      rw [h.store, hactivate]
      exact ⟨rfl, Nat.lt_succ_self m'.store.scopes.size⟩

theorem strictening_invoke (calls : Nat) : strictening.Invokes (invoke calls) (invoke calls) := by
  induction calls with
  | zero =>
    intro n _ _ _ l l' args _ _ hl env m m' h
    obtain rfl := hl
    exact .error h
  | succ calls ih => exact strictening.calls_succ ih

/-- a run of a block where names have to be declared, and where they need not -/
theorem strictens_runBlock {n : Nat} {c : ScopeId} (hc : c.index < n) (block : Block) {env : Env}
    {m m' : Machine} (h : m.Twin n m') :
    Strictens n (fun _ => Eq) ((runBlock c block).outcome env m)
      ((runBlock c block).outcome env.lax m') := by
  rw [outcome_runBlock, outcome_runBlock]
  exact strictening.runWith (strictening_invoke _) hc block.alike_self env m m' h

/-- a name is refused, or nothing differs but the setting of the scopes -/
theorem Strictens.same {n : Nat} {o o' : Except RuntimeError α × Machine}
    (h : Strictens n (fun _ => Eq) o o') :
    (∃ l name, o.1 = .error ⟨l, .undeclared name⟩) ∨
      o.1 = o'.1 ∧ o.2.steps = o'.2.steps ∧ o.2.output = o'.2.output ∧
        o.2.store = o'.2.store.strict := by
  cases h with
  | ok _ htwin hab => exact .inr ⟨congrArg Except.ok hab, htwin.steps, htwin.output, htwin.store⟩
  | error htwin => exact .inr ⟨rfl, htwin.steps, htwin.output, htwin.store⟩
  | refused => exact .inl ⟨_, _, rfl⟩

end Eval

/-! ## where every scope is strict -/

namespace Store

variable {s s' : Store}

/-- names have to be declared in every scope -/
def AllExplicit (s : Store) : Prop := ∀ c, c.index < s.scopes.size → (s.scope c).isExplicit = true

namespace AllExplicit

theorem furnished {F : FunctionDecl → Prop} {C : ClassDecl → Prop} {c : ScopeId}
    (h : s.AllExplicit) (hsteps : s.Furnished F C c s') : s'.AllExplicit :=
  fun x hx => hsteps.isExplicit x (h x (hx.trans_eq hsteps.scopes))

theorem newScope (h : s.AllExplicit) (outer : List ScopeId) (name : Option String) :
    (s.newScope outer true name).2.AllExplicit := by
  intro c hc
  rw [scope_newScope]
  split
  · rfl
  · rename_i hne
    have hc : c.index < s.scopes.size + 1 := hc.trans_eq (Array.size_push _)
    exact h c (by omega)

theorem newChild (h : s.AllExplicit) {parent : ScopeId} (hparent : parent.index < s.scopes.size)
    (name : Option String) : (s.newChild parent name).2.AllExplicit := by
  rw [Store.newChild, h parent hparent]
  exact h.newScope _ name

theorem opened (h : s.AllExplicit) (d : ClassDecl) {home : ScopeId}
    (hhome : home.index < s.scopes.size) : (s.opened d home).AllExplicit := by
  intro c hc
  rw [Store.opened, scope_modifyScope, apply_ite Scope.isExplicit, ite_self]
  exact h.newChild hhome none c (hc.trans_eq Array.size_modify)

/-- steps of a run open strict scopes only -/
theorem change {globals : ScopeId} (h : s.AllExplicit) (hs : s.Housed globals) {block : Block}
    {top : ScopeId} (hstep : s.Change block top Store.Plain Store.Quiet s') : s'.AllExplicit := by
  cases hstep with
  | quiet hquiet => exact fun c hc => (hquiet.isExplicit c).trans (h c (hc.trans_eq hquiet.scopes))
  | hoist =>
    exact h.furnished (s.equips_hoist top block).furnished
  | newInstance hd =>
    exact (h.opened _ (lt_of_classes hd)).furnished (s.equips_newInstance _ _).furnished
  | @enter f d home args byRef hfunction hargs =>
    have hhome := hs.nested.home f
    rw [hfunction] at hhome
    exact (h.newChild hhome _).furnished (s.equips_activate byRef home hargs).furnished

end AllExplicit

/-- how a name gets bound by a step of a run of a block: it is declared by the block, it is a member
of a new instance, or it is a parameter of a function that is entered, or declared by its body -/
inductive Binds (block : Block) (top : ScopeId) (before : Store) : Store → ScopeId → String → Prop
  | declaration {n : String} : Named block.names n →
    Binds block top before (block.hoist top before) top n
  | member {home : ScopeId} {name n : String} {d : ClassDecl} :
    (before.scope home).classes.find? name = some d → Named d.memberNames n →
    Binds block top before (before.newInstance d home).2 ⟨before.scopes.size⟩ n
  | parameter {id : FunctionId} {d : FunctionDecl} {home : ScopeId} {n : String} (byRef : Bool)
    (args : List SlotId) : before.function id = .script d home → Named d.paramNames n →
    Binds block top before (activate byRef d home args before).2 ⟨before.scopes.size⟩ n
  | ownDeclaration {id : FunctionId} {d : FunctionDecl} {home : ScopeId} {n : String} (byRef : Bool)
    (args : List SlotId) : before.function id = .script d home → Named d.body.names n →
    Binds block top before (activate byRef d home args before).2 ⟨before.scopes.size⟩ n

/-- where every scope is strict, no name gets bound in another way -/
theorem AllExplicit.binds (h : s.AllExplicit) {block : Block} {top : ScopeId}
    (hstep : s.Change block top Store.Plain Store.Quiet s') {c : ScopeId} {n : String} {id : SlotId}
    (hid : (s'.scope c).bindings.find? n = some id) :
    (s.scope c).bindings.find? n = some id ∨ s.Binds block top s' c n := by
  cases hstep with
  | quiet hquiet =>
    left
    rwa [← hquiet.bindings c (h c ((lt_of_bindings hid).trans_eq hquiet.scopes))]
  | hoist =>
    refine (s.bindsOnly_hoist top block c n id hid).imp_right ?_
    rintro ⟨rfl, hn⟩
    exact .declaration hn
  | newInstance hd =>
    refine (s.bindsOnly_newInstance _ _ c n id hid).imp_right ?_
    rintro ⟨rfl, hn⟩
    exact .member hd hn
  | enter byRef hfunction _ =>
    refine (s.bindsOnly_activate byRef _ _ _ c n id hid).imp_right ?_
    rintro ⟨rfl, hn⟩
    rcases named_append.mp hn with hn | hn
    · exact .parameter byRef _ hfunction hn
    · exact .ownDeclaration byRef _ hfunction hn

end Store

namespace Session

theorem Hosted.allExplicit_traced {P : Block → Prop} {s : Session} (h : s.Hosted P)
    (hexplicit : s.store.AllExplicit) (steps : Nat) (block : Block) :
    (s.traced steps block).2.machine.store.AllExplicit ∧
      ∀ e ∈ (s.traced steps block).2.log, ∀ x ∈ e.stores, x.Housed s.globals ∧ x.AllExplicit := by
  obtain ⟨l, hlog, hpath⟩ := (kept_of_housed h.housed steps block).path
  obtain rfl : (s.traced steps block).2.log = l := hlog
  exact hpath.invariant (fun hok hstep hx => hx.change hok hstep) h.housed hexplicit

/-- where a session starts with declarations compulsory, they are so in all of its scopes -/
theorem Hosted.allExplicit {P : Block → Prop} {s : Session} (h : s.Hosted P) :
    s.config.isExplicit = true → s.store.AllExplicit := by
  have hdeclare : ∀ {s : Store} {c : ScopeId} (n : String) (v : Value), s.AllExplicit →
      (s.declare c n v).2.AllExplicit := fun n v hs =>
    hs.furnished (F := fun _ => True) (C := fun _ => True) (.declare _ n v)
  refine h.invariant (fun s => s.config.isExplicit = true → s.store.AllExplicit)
    (fun config _ hexplicit => ?_) fun s a hs hmay ih hexplicit => ?_
  · have hnone : Store.empty.AllExplicit := fun c hc => absurd hc (Nat.not_lt_zero _)
    show (Store.empty.newScope [] config.isExplicit none).2.AllExplicit
    rw [show config.isExplicit = true from hexplicit]
    exact hnone.newScope [] none
  · cases a with
    | pin => exact ih hexplicit
    | clearOutput => exact ih hexplicit
    | register name v => exact hdeclare name v (ih hexplicit)
    | registerResponse =>
      exact hdeclare (s := (s.store.newResponse s.globals).2) "response" _ (ih hexplicit)
    | newObject => exact ih hexplicit
    | define => exact ih hexplicit
    | runBlock steps scope block =>
      obtain ⟨rfl, -⟩ := hmay
      show (s.perform steps (runBlock s.globals block)).2.2.store.AllExplicit
      rw [store_perform]
      exact (allExplicit_traced hs (ih hexplicit) steps block).1
    | _ => exact hmay.elim

/-- what is bound behind a run was bound before it, or some step has bound it -/
theorem binds_of_path {env : Env} {block : Block} {globals : ScopeId} {s s' : Store}
    {l : List Event} (h : (sheltering env block globals).Path s l s') (hs : s.Housed globals)
    (hexplicit : s.AllExplicit) {c : ScopeId} {n : String} {id : SlotId}
    (hid : (s'.scope c).bindings.find? n = some id) :
    (s.scope c).bindings.find? n = some id ∨
      ∃ before after, .step before after ∈ l ∧ before.Binds block globals after c n := by
  induction h with
  | nil _ => exact .inl hid
  | step hstep hok _ ih =>
    rcases ih hok (hexplicit.change hs hstep) hid with hold | ⟨before, after, hevent, hbinds⟩
    · exact (hexplicit.binds hstep hold).imp_right fun hbinds => ⟨_, _, List.mem_cons_self, hbinds⟩
    · exact .inr ⟨before, after, List.mem_cons_of_mem _ hevent, hbinds⟩
  | start loc _ _ ih =>
    refine (ih hs hexplicit hid).imp_right ?_
    rintro ⟨before, after, hevent, hbinds⟩
    exact ⟨before, after, List.mem_cons_of_mem _ hevent, hbinds⟩

/-! ## sessions side by side -/

/-- a host with two sessions at once: in the first one names have to be declared, in the second they
need not; it goes on as long as no run of the first one is refused for a name -/
def twofold : Hosting (Session × Session) where
  start config records :=
    (start { config with isExplicit := true } records,
      start { config with isExplicit := false } records)
  after p a := (p.1.after a, p.2.after a)
  may
    | _, .pin _ | _, .clearOutput | _, .registerResponse | _, .newObject _ => True
    | _, .register _ v | _, .define _ _ v => v.NoFunction
    | p, .runBlock steps scope block => scope = p.2.globals ∧
      ∀ l name, (p.1.perform steps (runBlock scope block)).1 ≠ .error ⟨l, .undeclared name⟩
    | _, _ => False

abbrev Twins (s s' : Session) : Prop := twofold.Reaches (s, s')

theorem Twins.hosted {s s' : Session} (h : s.Twins s') : s'.Hosted fun _ => True := by
  refine h.map Prod.snd (fun config _ => .start { config with isExplicit := false } _)
    fun p a hmay => ⟨?_, rfl⟩
  cases a with
  | runBlock => exact ⟨hmay.1, trivial⟩
  | _ => exact hmay

/-- the session with another store, where names need not be declared -/
def lax (s : Session) (store : Store) : Session :=
  { s with config.isExplicit := false, store }

/-- a run beside the run where names need not be declared -/
theorem perform_lax {s : Session} {store : Store} (hstore : s.store = store.strict)
    (hs : store.Housed s.globals) (steps : Nat) (block : Block) :
    let ended := s.perform steps (runBlock s.globals block)
    let ended' := (s.lax store).perform steps (runBlock s.globals block)
    (∃ l name, ended.1 = .error ⟨l, .undeclared name⟩) ∨
      ended.1 = ended'.1 ∧ ended.2.1 = ended'.2.1 ∧
        ended.2.2.output = ended'.2.2.output ∧ ended.2.2.store = ended'.2.2.store.strict := by
  have htwin : Machine.Twin store.scopes.size ⟨s.store, steps, s.output⟩ ⟨store, steps, s.output⟩ :=
    ⟨hstore, ⟨hs.nested, hs.homed.routine⟩, rfl, rfl⟩
  have hrun : Strictens _ _ ((runBlock s.globals block).outcome s.env _)
      ((runBlock s.globals block).outcome s.env.lax _) :=
    strictens_runBlock hs.homed.there block htwin
  exact hrun.same

/-- what the host does leads from two sessions that differ in the setting of the scopes to two such
sessions -/
theorem exists_after_lax {s : Session} {store : Store} {a : HostAct} (hstore : s.store = store.strict)
    (hs : store.Housed s.globals) (hmay : twofold.may (s, s.lax store) a) :
    ∃ store', (s.after a).store = store'.strict ∧
      (s.lax store).after a = (s.after a).lax store' := by
  cases a with
  | pin => exact ⟨store, hstore, rfl⟩
  | clearOutput => exact ⟨store, hstore, rfl⟩
  | registerResponse =>
    refine ⟨_, ?_, rfl⟩
    show ((s.store.newResponse s.globals).2.declare _ _ _).2 = _
    rw [hstore]
    exact congrArg Prod.snd ((store.newResponse s.globals).2.strict_declare s.globals "response" _)
  | register name v =>
    refine ⟨_, ?_, rfl⟩
    show (s.store.declare s.globals name v).2 = _
    rw [hstore, store.strict_declare]
    rfl
  | newObject className =>
    exact ⟨(store.newObject _).2,
      congrArg (fun x : Store => (x.newObject ⟨className, .empty, none⟩).2) hstore, rfl⟩
  | define id name v =>
    exact ⟨(store.define id name v).2,
      congrArg (fun x : Store => (x.define id name v).2) hstore, rfl⟩
  | runBlock steps scope block =>
    obtain ⟨rfl, hnot⟩ := hmay
    rcases perform_lax hstore hs steps block with ⟨l, name, hrefused⟩ | ⟨-, -, hout, hst⟩
    · exact absurd hrefused (hnot l name)
    · refine ⟨_, hst, ?_⟩
      exact congrArg (fun output =>
        { s.lax ((s.lax store).perform steps (runBlock s.globals block)).2.2.store with output })
        hout.symm
  | _ => exact hmay.elim

theorem Twins.eq_lax {s s' : Session} (h : s.Twins s') :
    ∃ store, s.store = store.strict ∧ s' = s.lax store := by
  refine h.invariant (fun p => ∃ store, p.1.store = store.strict ∧ p.2 = p.1.lax store)
    (fun config records => ?_) ?_
  · have hfirst := Store.empty.strict_newScope [] false none
    rw [Store.strict_empty] at hfirst
    exact ⟨(Store.empty.newScope [] false none).2, congrArg Prod.snd hfirst, rfl⟩
  · rintro ⟨s, s'⟩ a hreaches hmay ⟨store, hstore, hlax⟩
    obtain rfl : s' = s.lax store := hlax
    exact exists_after_lax hstore (Twins.hosted hreaches).housed hmay

/-- making declarations compulsory only adds errors about names that are not declared.

As long as no run of the session where declarations are compulsory has been refused for such a name,
its next run is refused for one, or it has the result of the other session's run, with the same
number of statements and the same page; it leaves the same store but for the setting of the scopes,
and so every scope has the same names with the same values.

And where declarations are compulsory from the start, they are so in every scope that there ever is.
Then a step of a run binds a name only if the name is declared, a parameter or a member of a new
instance; apart from that, the host binds what it registers. -/
theorem explicit_only_refuses :
    (∀ s s' : Session, s.Twins s' → ∀ (steps : Nat) (block : Block),
      let ended := s.perform steps (runBlock s.globals block)
      let ended' := s'.perform steps (runBlock s'.globals block)
      (∃ l name, ended.1 = .error ⟨l, .undeclared name⟩) ∨
        ended.1 = ended'.1 ∧ ended.2.1 = ended'.2.1 ∧ ended.2.2.output = ended'.2.2.output ∧
          ended.2.2.store = ended'.2.2.store.strict ∧
          ∀ c n, (ended.2.2.store.scope c).bindings.find? n
              = (ended'.2.2.store.scope c).bindings.find? n ∧
            ∀ id, (ended.2.2.store.scope c).bindings.find? n = some id →
              ended.2.2.store.slot id = ended'.2.2.store.slot id) ∧
    ∀ s : Session, s.Hosted (fun _ => True) → s.config.isExplicit = true →
      ∀ (steps : Nat) (block : Block),
        let ended := s.perform steps (runBlock s.globals block)
        ((s.traced steps block).1 = ended.1 ∧
          (s.traced steps block).2.machine = ⟨ended.2.2.store, ended.2.1, ended.2.2.output⟩) ∧
        (s.store.AllExplicit ∧ ended.2.2.store.AllExplicit ∧
          ∀ event ∈ (s.traced steps block).2.log, ∀ store ∈ event.stores, store.AllExplicit) ∧
        (∀ before after, .step before after ∈ (s.traced steps block).2.log →
          ∀ c n id, (after.scope c).bindings.find? n = some id →
            (before.scope c).bindings.find? n = some id ∨
              before.Binds block s.globals after c n) ∧
        (∀ c n id, (ended.2.2.store.scope c).bindings.find? n = some id →
          (s.store.scope c).bindings.find? n = some id ∨
            ∃ before after, .step before after ∈ (s.traced steps block).2.log ∧
              before.Binds block s.globals after c n) ∧
        (∀ name v, s.store.BindsOnly [name] s.globals (s.register name v).store) ∧
        s.store.BindsOnly ["response"] s.globals s.registerResponse.store := by
  refine ⟨fun s s' h steps block => ?_, fun s hs hexplicit steps block => ?_⟩
  · obtain ⟨store, hstore, rfl⟩ := h.eq_lax
    refine (perform_lax hstore h.hosted.housed steps block).imp_right ?_
    rintro ⟨hresult, hsteps, houtput, hend⟩
    refine ⟨hresult, hsteps, houtput, hend, fun c n => ⟨?_, fun id _ => ?_⟩⟩
    · rw [hend, Store.bindings_strict]
      rfl
    · rw [hend]
      rfl
  · have hstart := hs.allExplicit hexplicit
    obtain ⟨hend, hall⟩ := hs.allExplicit_traced hstart steps block
    obtain ⟨log, hlog, hpath⟩ := (kept_of_housed hs.housed steps block).path
    obtain rfl : (s.traced steps block).2.log = log := hlog
    refine ⟨s.traced_eq steps block, ⟨hstart, s.store_perform steps block ▸ hend, ?_⟩, ?_, ?_,
      fun name v => s.store.bindsOnly_declare s.globals name v, ?_⟩
    · exact fun event hevent store hstore => (hall event hevent store hstore).2
    · intro before after hevent c n id hid
      have hbefore := (hall _ hevent before List.mem_cons_self).2
      exact hbefore.binds (hpath.step_of_mem hevent) hid
    · intro c n id hid
      rw [store_perform] at hid
      exact binds_of_path hpath hs.housed hstart hid
    · have hresponse := (s.store.newResponse s.globals).2.bindsOnly_declare s.globals "response"
      exact (hresponse _).after fun _ => rfl

/-- a class whose instance counts, and a function that adds up what it has counted -/
def countingInstance : Block :=
  ⟨⟨"page", 1, 1⟩,
    [.dim ⟨⟨"page", 1, 5⟩, "total"⟩,
    .class ⟨⟨"page", 2, 1⟩, "Counter", [⟨⟨"page", 3, 7⟩, "count"⟩],
      [⟨⟨"page", 4, 3⟩, .function, "up", [⟨⟨"page", 4, 15⟩, "n", none⟩], ⟨⟨"page", 5, 5⟩,
        [.assign ⟨"page", 5, 11⟩ (.path ⟨"page", 5, 5⟩ ["count"])
          (.binary ⟨"page", 5, 19⟩ .add (.path ⟨"page", 5, 13⟩ ["count"])
            (.path ⟨"page", 5, 21⟩ ["n"])),
        .assign ⟨"page", 6, 8⟩ (.path ⟨"page", 6, 5⟩ ["up"]) (.path ⟨"page", 6, 10⟩ ["count"])]⟩⟩]⟩,
    .dim ⟨⟨"page", 9, 5⟩, "c"⟩,
    .assign ⟨"page", 10, 7⟩ (.path ⟨"page", 10, 5⟩ ["c"]) (.new ⟨"page", 10, 9⟩ "Counter"),
    .function ⟨⟨"page", 11, 1⟩, .function, "add", [⟨⟨"page", 11, 14⟩, "k", none⟩], ⟨⟨"page", 12, 3⟩,
      [.assign ⟨"page", 12, 9⟩ (.path ⟨"page", 12, 3⟩ ["total"])
        (.binary ⟨"page", 12, 17⟩ .add (.path ⟨"page", 12, 11⟩ ["total"])
          (.call ⟨"page", 12, 19⟩ (.path ⟨"page", 12, 19⟩ ["c", "up"])
            [.path ⟨"page", 12, 24⟩ ["k"]])),
      .assign ⟨"page", 13, 7⟩ (.path ⟨"page", 13, 3⟩ ["add"]) (.path ⟨"page", 13, 9⟩ ["total"])]⟩⟩,
    .expr ⟨"page", 15, 1⟩ (.call ⟨"page", 15, 1⟩ (.path ⟨"page", 15, 1⟩ ["response", "write"])
      [.call ⟨"page", 15, 16⟩ (.path ⟨"page", 15, 16⟩ ["add"])
        [.literal ⟨"page", 15, 20⟩ (.integer 2)]])]⟩

def withPage (isExplicit : Bool) : Session :=
  (start { Config.default with isExplicit } true).registerResponse

theorem twins_withPage : (withPage true).Twins (withPage false) :=
  .act .registerResponse trivial (.start .default true)

theorem countingInstance_ends (isExplicit : Bool) :
    ((withPage isExplicit).perform 0 (runBlock (withPage isExplicit).globals countingInstance)).1
        = .ok () ∧
    ((withPage isExplicit).perform 0
      (runBlock (withPage isExplicit).globals countingInstance)).2.2.output = #[.integer 2] := by
  cases isExplicit <;> decide +kernel

/-- the class, its instance and the functions work where names have to be declared as they do where
they need not, and all scopes on the way are strict -/
theorem explicit_only_refuses_countingInstance :
    let ended := (withPage true).perform 0 (runBlock (withPage true).globals countingInstance)
    let ended' := (withPage false).perform 0 (runBlock (withPage false).globals countingInstance)
    ended.1 = .ok () ∧ ended.2.2.output = #[.integer 2] ∧
    ended.2.2.store = ended'.2.2.store.strict ∧
    ∀ event ∈ ((withPage true).traced 0 countingInstance).2.log, ∀ store ∈ event.stores,
      store.AllExplicit := by
  obtain ⟨hresult, houtput⟩ := countingInstance_ends true
  have hhosted : (withPage true).Hosted fun _ => True :=
    (Under.start _ _).registerResponse trivial
  obtain ⟨hsame, hstrict⟩ := explicit_only_refuses
  have hall := (hstrict _ hhosted rfl 0 countingInstance).2.1.2.2
  refine ⟨hresult, houtput, ?_, hall⟩
  rcases hsame _ _ twins_withPage 0 countingInstance with ⟨l, name, hrefused⟩ | ⟨-, -, -, hstore, -⟩
  · cases hresult.symm.trans hrefused
  · exact hstore

end Session

end PageScript
