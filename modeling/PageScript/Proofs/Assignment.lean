import PageScript.Proofs.Instances
import PageScript.Proofs.Store.Chained
import PageScript.Proofs.Store.Hoisting

/-!
# What was assigned is read

A value that is put where a name leads to can let go of the thing that was there before, and with it
of scopes: the scope of an instance is alive as long as its instance is.  But where code runs, the
scopes on the way outward are held as long as they are alive (`chaining`), whatever a store does.
So the way to the slot is open behind the store as it was before, and in whatever letter case the
name is looked up, it leads to the slot with the value.

Where a name stands for the instance around, as `me` does, it has no slot of its own, and what is
assigned to it is lost; the name goes on to stand for the instance as long as the instance is alive.

* `Store.Stored`               what a store leaves: the value is read, and nothing else has changed;
* `Session.Modest`             the sessions of a host that holds no scopes but the global one;
* `Session.assigned_is_read`   every assignment to a name in their runs stores, except to `me`.
-/

namespace PageScript

open Eval Runner

variable {env : Env} {block : Block} {top : ScopeId}

/-! ## the discipline -/

/-- a scope where code can run while things are held, among them the scopes on the way outward -/
structure Store.RunsChained (top : ScopeId) (held : List Ref) (s : Store) (c : ScopeId) : Prop where
  runs : s.Runs [.scope top] held c
  chained : s.Chained held

namespace Store.RunsChained

variable {s s' : Store} {held held' : List Ref} {c : ScopeId}

/-- which scopes are held is all that counts -/
theorem mono (h : s.RunsChained top held c) (hall : ∀ p, .scope p ∈ held → .scope p ∈ held')
    (hscopes : ∀ p, .scope p ∈ held' → .scope p ∈ held) (hsteady : s.Steady s') :
    s'.RunsChained top held' c := by
  have hplace := hsteady.place c h.runs.there
  refine ⟨⟨fun r hr => ?_, h.runs.there.trans_le hsteady.scopes,
    (congrArg (·.2.2) hplace).trans h.runs.owner, fun p hp => hall p (h.runs.parent p ?_)⟩,
    h.chained.mono hall hscopes hsteady.scopes hsteady.place⟩
  · obtain rfl := List.mem_singleton.mp hr
    exact hall top (h.runs.base _ List.mem_cons_self)
  · exact (congrArg (·.1) hplace : (s'.scope c).outer = (s.scope c).outer) ▸ hp

/-- the scope of a class is the one where code runs, or alive further out: it may be held, and with
it the scope of a new instance -/
theorem newInstance (h : s.RunsChained top held c) (hs : s.Instances) (d : ClassDecl)
    {home : ScopeId} (hhome : home = c ∨ s.Present held home) :
    home.index < s.scopes.size ∧
      let made := s.newInstance d home
      made.2.RunsChained top ([.scope home, .scope made.1.2, .object made.1.1] ++ held) c := by
  have hmade := s.making_newInstance hs d home
  have hpart : home.index < s.scopes.size ∧ s.Chained (.scope home :: held) := by
    rcases hhome with rfl | hpresent
    · refine ⟨h.runs.there, h.chained.cons h.runs.there fun q _ hq => ?_⟩
      exact List.mem_cons_of_mem _ (h.runs.parent q hq)
    · exact ⟨h.chained.lt_of_present hpresent, h.chained.cons_present hs hpresent⟩
  have howner := hmade.instances.owner _ _ hmade.own
  have hown := (hpart.2.mono (fun _ hp => hp) (fun _ hp => hp) hmade.steady.scopes hmade.place).cons
    (hmade.instances.there _ _ hmade.own)
    fun q hnone _ => absurd (howner.symm.trans hnone) (Option.some_ne_none _)
  have hsame : ∀ p, .scope p ∈ .scope (s.newInstance d home).1.2 :: .scope home :: held ↔
      .scope p ∈ [.scope home, .scope (s.newInstance d home).1.2,
        .object (s.newInstance d home).1.1] ++ held := fun p => by simp [or_left_comm]
  exact ⟨hpart.1, h.runs.mono (fun r hr => List.mem_append_right _ hr) hmade.steady,
    hown.mono (fun p => (hsame p).mp) (fun p => (hsame p).mpr) le_rfl fun _ _ => rfl⟩

/-- the activation of a function whose scope is alive -/
theorem activate (h : s.RunsChained top held c) (hs : s.Instances) {home : ScopeId}
    (hhome : s.Present held home) (byRef : Bool) (d : FunctionDecl) (args : List SlotId) :
    (activate byRef d home args s).2.RunsChained top (.scope home :: .scope ⟨s.scopes.size⟩ :: held)
      ⟨s.scopes.size⟩ := by
  have hrest := Store.undisturbed_activate hs byRef d home args
  have hruns := Store.runs_activate hs h.runs.base byRef d home args
  have hsame : ∀ p, .scope p ∈ .scope home :: .scope ⟨s.scopes.size⟩ :: held ↔
      .scope p ∈ .scope ⟨s.scopes.size⟩ :: .scope home :: held :=
    fun p => by simp [or_left_comm]
  have hpart := h.chained.cons_present hs hhome
  have hact := (hpart.mono (fun _ hp => hp) (fun _ hp => hp) hrest.scopes hrest.place).cons
    hruns.there fun q _ hq => (hsame q).mp (hruns.parent q hq)
  exact ⟨hruns, hact.mono (fun p => (hsame p).mpr) (fun p => (hsame p).mp) le_rfl fun _ _ => rfl⟩

end Store.RunsChained

/-- code runs where the scopes on the way outward are held as long as they are alive -/
def chaining (env : Env) (block : Block) (top : ScopeId) : Discipline :=
  { tending env block top with
    env := env
    ok s := s.Tended top ∧ s.ClassesOutside
    scope held s c := s.RunsChained top held c
    scope_mono hheld hle hc := hc.mono (fun _ => hheld.all _) hheld.scopes hle
    value_slot _ _ := trivial
    slot_place _ _ _ := trivial
    callable_place _ _ _ := trivial
    moment H s c := s.RunsChained top H c
    admit_start {held m c} _ hc :=
      hc.mono (fun _ hp => { env with held }.mem_heldIn hp m) (fun _ => Env.scope_mem_heldIn)
        (.refl _)
    error_outer _ _ _ _ := trivial
    error_home _ _ _ _ := trivial
    place_found _ _ _ := trivial
    value_owner _ _ _ := trivial
    place_member _ _ _ := trivial
    admit_newSlot {s v} hok _ := by
      have hrest := Store.Undisturbed.newSlot hok.1.instances v
      have htended := hok.1.undisturbed hrest hok.1.offers
      exact ⟨⟨⟨htended, hok.2.newSlot v⟩, hrest.steady, fun _ => hrest⟩, trivial⟩
    admit_setSlot {s c id v} hok _ _ := by
      have hrest := Store.Undisturbed.setSlot hok.1.instances id v
      have htended := hok.1.undisturbed hrest hok.1.offers
      exact ⟨⟨htended, hok.2.setSlot id v⟩, hrest.steady, fun _ => hrest⟩
    admit_declare {held s c n} hok hc _ := by
      have hrest := Store.Undisturbed.declare hok.1.instances hc.runs.owner n .empty
      have htended := hok.1.undisturbed hrest hok.1.offers
      exact ⟨⟨⟨htended, hok.2.declare c n .empty⟩, hrest.steady, fun _ => hrest⟩, trivial⟩
    admit_define {s o n v} hok _ hinstance _ := by
      have hrest := Store.Undisturbed.define hok.1.instances hinstance n v
      have htended := hok.1.undisturbed hrest hok.1.offers
      exact ⟨⟨htended, hok.2.define o n v⟩, hrest.steady, fun _ => hrest⟩
    admit_hoist {held s} hok hc := by
      have hrest := Store.Undisturbed.hoist hok.1.instances hc.runs.there hc.runs.owner block
      have htended := hok.1.undisturbed hrest (hok.1.offers.hoist top block)
      exact ⟨⟨htended, hok.2.hoist hc.runs.owner block⟩, hrest.steady⟩
    admit_newInstance {held s c home n d} hok hc _ hpresent hd := by
      have hmade := s.making_newInstance hok.1.instances d home
      have htended := hok.1.of_steady hmade.steady hmade.instances (hok.1.offers.newInstance d home)
      obtain ⟨hlt, hruns⟩ := hc.newInstance hok.1.instances d hpresent
      have hclasses := hok.2.newInstance d hlt (hok.2.owner home n d hd)
      exact ⟨⟨⟨htended, hclasses⟩, hmade.steady⟩, trivial, hruns⟩
    admit_enter {held s c f d home args} hok hc _ _ hpresent _ := by
      have hrest := Store.undisturbed_activate hok.1.instances env.config.byRef d home args
      have htended := hok.1.undisturbed hrest (hok.1.offers.activate _ d home args)
      exact ⟨⟨⟨htended, hok.2.activate _ d home args⟩, hrest.steady⟩,
        hc.activate hok.1.instances hpresent _ d args⟩
    slot_result _ _ := trivial
    admit_routine held' {held m c f n home r args l} hok _ _ hfunction _ := by
      obtain rfl := hok.1.offers f n home r hfunction
      obtain ⟨hsame, -, herror⟩ := Routine.write_spec l home args { env with held := held' } m
      refine ⟨?_, fun _ _ => trivial, herror⟩
      rw [hsame]
      exact ⟨hok, .refl _, .refl⟩ }

/-! ## what a store leaves -/

/-- a value has been put where a name leads to in a scope: looked up, in whatever letter case, the
name yields a slot with the value, and the other slots that there were hold what they held -/
def Store.Stored (before : Store) (c : ScopeId) (x : String) (v : Value) (held : List Ref)
    (after : Store) : Prop :=
  ∃ id, after.slot id = v ∧
    (∀ y, Text.fold y = Text.fold x →
      (Action.lookup .variable c y).outcome held after = (.ok (some id), after)) ∧
    ∀ other, other.index < before.slots.size → other ≠ id → after.slot other = before.slot other

namespace Store

variable {s s' : Store} {c : ScopeId} {H K held : List Ref} {x : String} {v : Value}

/-- a name that a scope binds is found there -/
theorem find_of_bound {use : Use} {y : String} {id : SlotId}
    (h : (s.scope c).bindings.find? y = some id) :
    s.find held use y c = .ok (some (.slot id)) := by
  simp only [find, searchFrom, findHere, h]

/-- an assignment puts the value where the name leads to, unless the name stands for the instance
around, which has no slot of its own -/
theorem Stored.of_outcome (hs : s.Housed top) (htended : s.Tended top)
    (hclasses : s.ClassesOutside) (hc : s.RunsChained top H c)
    (hscopes : ∀ p, .scope p ∈ K → .scope p ∈ H) (hheld : ∀ r ∈ H, r ∈ held)
    (hK : ∀ r ∈ held, r ∈ K) (hv : ∀ r ∈ v.refs, r ∈ K)
    (h : (Action.assign c x v).outcome K s = (.ok (), s')) :
    s.Stored c x v held s' ∨
      ∃ o, s.find K .variable x c = .ok (some (.owner o)) ∧
        (∀ other, other.index < s.slots.size → s'.slot other = s.slot other) ∧
        ∀ y, Text.fold y = Text.fold x →
          (s'.find held .variable y c = .ok (some (.owner o)) ↔
            s'.alive held (.object o) = true) := by
  rw [Action.outcome_assign, Action.outcome_resolve] at h
  rcases hfind : s.find K .variable x c with f | _ | id | o
  · rw [hfind] at h
    cases h
  · -- the variable is declared on the spot, where every later search finds it first
    rw [hfind] at h
    by_cases hexplicit : (s.scope c).isExplicit = true
    · simp only [hexplicit, if_true] at h
      cases h
    · simp only [if_neg hexplicit] at h
      obtain ⟨-, rfl⟩ := Prod.mk.inj h
      refine .inl ⟨⟨s.slots.size⟩, ?_, fun y hy => ?_, fun other hlt hne => ?_⟩
      · exact (slot_setSlot ..).trans (if_pos ⟨rfl, s.lt_newSlot .empty⟩)
      · have hbound : (((s.declare c x .empty).2.setSlot (s.declare c x .empty).1 v).scope
            c).bindings.find? y = some ⟨s.slots.size⟩ :=
          (find?_declare hc.runs.there x y .empty).trans (if_pos hy)
        rw [Action.outcome_lookup, find_of_bound hbound]
      · exact (slot_setSlot_of_ne hne).trans (slot_newSlot_of_lt hlt)
  · rw [hfind] at h
    obtain ⟨-, rfl⟩ := Prod.mk.inj h
    have hfound : ∀ y, Text.fold y = Text.fold x →
        (s.setSlot id v).find held .variable y c = .ok (some (.slot id)) := fun y hy =>
      hc.chained.find_again htended.instances hclasses hs.nested (hs.nested.setSlot id v)
        (fun _ => rfl) hscopes hheld (fun o ho => alive_of_setSlot ho hK hv) hy hc.runs.parent
        nofun hfind
    have hlt : id.index < s.slots.size := by
      obtain ⟨p, -, hhere⟩ := s.exists_of_searchFrom hfind
      rcases slot_of_findHere hhere with hbound | ⟨hp, rfl⟩
      · exact hs.inOrder.bound p x id hbound
      · exact (hs.inOrder.result p hp).1
    refine .inl ⟨id, ?_, fun y hy => ?_, fun other _ hne => slot_setSlot_of_ne hne⟩
    · rw [slot_setSlot, if_pos ⟨rfl, hlt⟩]
    · rw [Action.outcome_lookup, hfound y hy]
  · rw [hfind] at h
    obtain ⟨-, rfl⟩ := Prod.mk.inj h
    rw [show (s.newSlot (.object o)).1 = ⟨s.slots.size⟩ from rfl, setSlot_newSlot]
    refine .inr ⟨o, rfl, fun other hlt => slot_newSlot_of_lt hlt,
      fun y hy => ⟨fun hstands => ?_, fun hlive => ?_⟩⟩
    · obtain ⟨p, -, hhere⟩ := Store.exists_of_searchFrom _ hstands
      exact (owner_of_findHere hhere).2
    · refine hc.chained.find_again htended.instances hclasses hs.nested (hs.nested.newSlot v)
        (fun _ => rfl) hscopes hheld (fun o' ho' => ?_) hy hc.runs.parent (fun o' ho' => ?_) hfind
      · exact alive_of_newSlot nofun ho' hK hv
      · exact Found.owner.inj ho' ▸ hlive

end Store

/-- an assignment to a name evaluates, and then stores while the value is held -/
theorem Eval.outcome_perform_assign (i : Invoke Eval) (c : ScopeId) (loc target : Location)
    (x : String) (e : Expr) (env : Env) (m : Machine) :
    (perform i c (.assign loc (.path target [x]) e)).outcome env m
      = match (eval i c e).outcome env m with
        | (.error err, m₁) => (.error err, m₁)
        | (.ok v, m₁) =>
          match (Action.assign c x v).outcome ({ env with held := v.refs ++ env.held }.heldIn m₁)
            m₁.store with
          | (.ok _, s) => (.ok .normal, { m₁ with store := s })
          | (.error f, s) => (.error ⟨target, f⟩, { m₁ with store := s }) := by
  rw [perform, outcome_bind]
  rcases (eval i c e).outcome env m with ⟨err | v, m₁⟩
  · rfl
  have hassign : (assign i c loc v (.path target [x])).outcome env m₁
      = (act target (Action.assign c x v)).outcome { env with held := v.refs ++ env.held } m₁ := rfl
  show (assign i c loc v (.path target [x]) >>= _ : Eval Flow).outcome env m₁ = _
  rw [outcome_bind, hassign, outcome_act]
  dsimp only
  rcases (Action.assign c x v).outcome _ m₁.store with ⟨f | _, s⟩ <;> rfl

/-! ## sessions -/

namespace Session

/-- the sessions of a host that registers `response`, values that are no functions and objects of
its own, gives members to objects that are no instances, and runs blocks; and of all scopes holds
none but the global one -/
abbrev Modest : Session → Prop := Under fun
  | _, .clearOutput | _, .registerResponse | _, .newObject _ => True
  | _, .pin pinned => ∀ p, .scope p ∉ pinned
  | _, .register _ v => v.NoFunction
  | s, .define id _ v => s.store.isInstance id = false ∧ v.NoFunction
  | s, .runBlock _ scope _ => scope = s.globals
  | _, _ => False

namespace Modest

variable {s : Session}

theorem hosted (h : s.Modest) : s.Hosted fun _ => True := by
  refine h.mono fun s a hmay => ?_
  cases a with
  | define => exact hmay.2
  | runBlock => exact ⟨hmay, trivial⟩
  | pin => trivial
  | _ => exact hmay

theorem served (h : s.Modest) : ∃ made, s.Served made := by
  refine h.invariant (fun s => ∃ made, s.Served made) (fun config records => ⟨_, .start _ _⟩) ?_
  rintro s a - hmay ⟨made, hs⟩
  have hallowed : registrar.may (made, s) a := by
    cases a with
    | register => trivial
    | pin => trivial
    | define => exact hmay.1
    | runExpr => exact hmay.elim
    | _ => exact hmay
  have hnext := hs.act a hallowed
  cases a <;> exact ⟨_, hnext⟩

theorem tended (h : s.Modest) : s.store.Tended s.globals := h.served.choose_spec.tracks.1

theorem scope_not_mem_pinned (h : s.Modest) : ∀ p, .scope p ∉ s.pinned := by
  refine h.invariant (fun s => ∀ p, .scope p ∉ s.pinned) (fun _ _ _ hp => nomatch hp)
    fun s a _ hmay ih => ?_
  cases a with
  | pin => exact hmay
  | _ => exact ih

theorem runsChained (h : s.Modest) : s.store.RunsChained s.globals s.env.held s.globals := by
  have htended := h.tended
  have hglobals : ∀ p, .scope p ∈ s.env.held → p = s.globals := by
    intro p hp
    rcases List.mem_cons.mp hp with heq | hp
    · exact Ref.scope.inj heq
    · exact absurd hp (h.scope_not_mem_pinned p)
  have hparent : ∀ q, (s.store.scope s.globals).outer.head? = some q → .scope q ∈ s.env.held := by
    intro q hq
    rw [htended.outermost] at hq
    cases hq
  refine ⟨⟨fun r hr => ?_, htended.there, htended.owner, hparent⟩, fun p hp => ?_,
    fun p q hp _ hq => hparent q ?_⟩
  · exact List.mem_singleton.mp hr ▸ List.mem_cons_self
  · exact hglobals p hp ▸ htended.there
  · exact hglobals p hp ▸ hq

theorem kept (h : s.Modest) (hclasses : s.store.ClassesOutside) (steps : Nat) (block : Block) :
    (chaining s.env block s.globals).Kept s.env.held s.store [] (fun _ _ => True)
      (s.traced steps block) :=
  Discipline.run (D := chaining s.env block s.globals) (m := ⟨s.store, steps, s.output⟩)
    ⟨h.tended, hclasses⟩ h.runsChained

theorem classesOutside (h : s.Modest) : s.store.ClassesOutside :=
  h.upheld (I := fun _ store => store.ClassesOutside)
    { start := fun isExplicit => .newScope ⟨fun _ _ _ _ => rfl, fun _ _ h => absurd rfl h⟩ ..
      register := fun {_ name _} _ _ ih => ih.declare _ name _
      registerResponse := fun _ _ ih =>
        (((ih.newFunction _).newObject _).define _ _ _).declare _ _ _
      newObject := fun _ _ ih => ih.newObject _
      define := fun {_ _ name _} _ _ ih => ih.define _ name _
      runBlock := fun {s steps _ block} hs hscope ih => by
        obtain rfl : _ = s.globals := hscope
        rw [store_perform]
        exact (kept hs ih steps block).ok.2 }

end Modest

/-! ## assignments -/

theorem evaluated_of_start {s : Session} (hs : s.Modest) {steps : Nat} {block : Block} {c : ScopeId}
    {l : Location} {held : List Ref} {store : Store}
    (hevent : .start c l held store ∈ (s.traced steps block).2.log) {H : List Ref} {m : Machine}
    (hstore : m.store = store) (hH : { s.env with held := H }.heldIn m = held) (k : Nat)
    (e : Expr) :
    let after := ((Eval.eval (invoke k) c e).outcome { s.env with held := H } m).2.store
    (after.Housed s.globals ∧ after.Tended s.globals ∧ after.ClassesOutside) ∧
      after.RunsChained s.globals H c := by
  have hscopes : ∀ p, .scope p ∈ held ↔ .scope p ∈ H :=
    fun p => hH ▸ ⟨Env.scope_mem_heldIn, fun hp => { s.env with held := H }.mem_heldIn hp m⟩
  subst hstore
  -- code runs here in a scope on the way outward from which the scopes are held
  let D := chaining s.env block s.globals
  obtain ⟨log, hlog, hpath⟩ := (hs.kept hs.classesOutside steps block).path
  obtain rfl : (s.traced steps block).2.log = log := hlog
  have hok := hpath.ok ⟨hs.tended, hs.classesOutside⟩ hevent (List.mem_singleton.mpr rfl)
  have hmoment : m.store.RunsChained s.globals held c := hpath.start_of_mem hevent
  have hc : m.store.RunsChained s.globals H c :=
    hmoment.mono (fun p => (hscopes p).mp) (fun p => (hscopes p).mpr) (.refl _)
  have hkept : D.Kept H m.store [] D.value
      ((Eval.eval (Trace.invoke k) c e).outcome { s.env with held := H } ⟨m, []⟩) :=
    Discipline.eval (Discipline.invokes k) (D := D) hc e ⟨m, []⟩ rfl hok
  -- and in one that is sheltered
  let S := sheltering s.env block s.globals
  obtain ⟨log', hlog', hpath'⟩ := (kept_of_housed hs.hosted.housed steps block).path
  obtain rfl : (s.traced steps block).2.log = log' := hlog'
  have hhoused := hpath'.ok hs.hosted.housed hevent (List.mem_singleton.mpr rfl)
  have hsheltered : ∀ p ∈ c :: (m.store.scope c).outer, m.store.Sheltered held p :=
    hpath'.start_of_mem hevent
  have hfit : m.store.Fit s.globals H c :=
    ⟨hc.runs.base _ List.mem_cons_self, hc.runs.there,
      fun p hp => (hsheltered p hp).imp_left (hscopes p).mp⟩
  have hkept' : S.Kept H m.store [] S.value
      ((Eval.eval (Trace.invoke k) c e).outcome { s.env with held := H } ⟨m, []⟩) :=
    Discipline.eval (Discipline.invokes k) (D := S) hfit e ⟨m, []⟩ rfl hhoused
  have hmachine := Trace.machine_eval k c e { s.env with held := H } ⟨m, []⟩
  rw [← hmachine]
  exact ⟨⟨hkept'.ok, hkept.ok⟩, hc.mono (fun _ hp => hp) (fun _ hp => hp) hkept.le⟩

/-- what was assigned is read.

Wherever a statement of a run starts, let an assignment to a name be carried out there, with any
number of calls allowed: it evaluates the expression and goes on from the machine that is left.
Then the name, looked up right behind it in whatever letter case, leads to a slot with the value, and
no other slot that there was has changed.  Only if the name stands for the instance around there is
no such slot; then none that there was has changed at all, and the name stands for the instance
exactly if the instance is still alive: the value can have been the last that held it. -/
theorem assigned_is_read {s : Session} (hs : s.Modest) {steps : Nat} {block : Block} {c : ScopeId}
    {l : Location} {held : List Ref} {store : Store}
    (hevent : .start c l held store ∈ (s.traced steps block).2.log) {H : List Ref} {m : Machine}
    (hstore : m.store = store) (hH : { s.env with held := H }.heldIn m = held) (k : Nat)
    {loc target : Location} {x : String} {e : Expr} {flow : Flow} {m' : Machine}
    (hdone : (Eval.perform (invoke k) c (.assign loc (.path target [x]) e)).outcome
      { s.env with held := H } m = (.ok flow, m')) :
    ∃ v m₁, (Eval.eval (invoke k) c e).outcome { s.env with held := H } m = (.ok v, m₁) ∧
      (m₁.store.Stored c x v ({ s.env with held := H }.heldIn m') m'.store ∨
        ∃ o, m₁.store.find ({ s.env with held := v.refs ++ H }.heldIn m₁) .variable x c
            = .ok (some (.owner o)) ∧
          (∀ id, id.index < m₁.store.slots.size → m'.store.slot id = m₁.store.slot id) ∧
          ∀ y, Text.fold y = Text.fold x →
            (m'.store.find ({ s.env with held := H }.heldIn m') .variable y c
                = .ok (some (.owner o)) ↔
              m'.store.alive ({ s.env with held := H }.heldIn m') (.object o) = true)) := by
  obtain ⟨⟨hhoused, htended, hclasses⟩, hc⟩ := evaluated_of_start hs hevent hstore hH k e
  rw [outcome_perform_assign] at hdone
  generalize (Eval.eval (invoke k) c e).outcome { s.env with held := H } m = evaluated at *
  obtain ⟨err | v, m₁⟩ := evaluated
  · cases hdone
  refine ⟨v, m₁, rfl, ?_⟩
  dsimp only at hdone
  split at hdone
  · rename_i s' hassign
    obtain ⟨-, rfl⟩ := Prod.mk.inj hdone
    refine Store.Stored.of_outcome hhoused htended hclasses hc (fun p hp => ?_)
      (fun r hr => Env.mem_heldIn _ hr _) (fun r hr => ?_) (fun r hr => ?_) hassign
    · -- a value is no scope
      have hp : .scope p ∈ v.refs ++ H := Env.scope_mem_heldIn hp
      exact (HoldsMore.refs v).scopes p hp
    · exact s.env.heldIn_mono (fun r hr => List.mem_append_right _ hr) m₁ hr
    · exact { s.env with held := v.refs ++ H }.mem_heldIn (List.mem_append_left _ hr) m₁
  · cases hdone

/-- a sub whose parameter is passed by reference and assigned to, with another letter case -/
def assignedParam : Block :=
  ⟨⟨"page", 1, 1⟩,
    [.function ⟨⟨"page", 1, 1⟩, .sub, "put", [⟨⟨"page", 1, 9⟩, "a", some true⟩], ⟨⟨"page", 2, 3⟩,
      [.assign ⟨"page", 2, 5⟩ (.path ⟨"page", 2, 3⟩ ["A"])
        (.literal ⟨"page", 2, 7⟩ (.integer 5))]⟩⟩,
    .dim ⟨⟨"page", 4, 5⟩, "x"⟩,
    .expr ⟨"page", 5, 1⟩ (.call ⟨"page", 5, 1⟩ (.path ⟨"page", 5, 1⟩ ["put"])
      [.path ⟨"page", 5, 5⟩ ["x"]])]⟩

/-- what a statement does where one starts, while the same things are held -/
def performed (s : Session) (stmt : Stmt) (c : ScopeId) (held : List Ref) (store : Store) :
    Except RuntimeError Flow × Machine :=
  (Eval.perform (invoke 0) c stmt).outcome { s.env with held } ⟨store, 0, #[]⟩

def assignFive : Stmt :=
  .assign ⟨"page", 2, 5⟩ (.path ⟨"page", 2, 3⟩ ["A"]) (.literal ⟨"page", 2, 7⟩ (.integer 5))

/-- whether a statement starts in the activation of a function where `A` stands for a slot, and
could be `A = 5` -/
def assignsFive (s : Session) : Event → Bool
  | .step .. => false
  | .start c _ held store =>
    match store.find held .variable "A" c with
    | .ok (some (.slot _)) =>
      c ≠ s.globals ∧ (s.performed assignFive c held store).1 = .ok .normal
    | _ => false

/-- in the sub the value is put into the slot that `a` stands for -/
theorem assigned_is_read_assignedParam :
    let s := (start .default false).registerResponse
    ∃ c l held store, .start c l held store ∈ (s.traced 0 assignedParam).2.log ∧ c ≠ s.globals ∧
      (s.performed assignFive c held store).1 = .ok .normal ∧
      store.Stored c "A" (.integer 5) held (s.performed assignFive c held store).2.store := by
  have hs : (start .default false).registerResponse.Modest :=
    (Under.start _ _).registerResponse trivial
  have hrecords : (start .default false).registerResponse.records = false := rfl
  have hevent : ((start .default false).registerResponse.traced 0 assignedParam).2.log.any
      (assignsFive (start .default false).registerResponse) = true := by decide +kernel
  generalize (start .default false).registerResponse = s at hs hrecords hevent ⊢
  obtain ⟨e, he, hassigns⟩ := List.any_eq_true.mp hevent
  cases e with
  | step => cases hassigns
  | start c l held store =>
    simp only [assignsFive] at hassigns
    split at hassigns
    · rename_i id hfind
      obtain ⟨hinside, hdone⟩ := of_decide_eq_true hassigns
      refine ⟨c, l, held, store, he, hinside, hdone, ?_⟩
      -- the page holds nothing
      have hheld : ∀ (H : List Ref) (m : Machine), { s.env with held := H }.heldIn m = H :=
        fun H m => if_neg fun hkeeps => Bool.false_ne_true (hrecords.symm.trans hkeeps)
      obtain ⟨v, m₁, heval, hstored⟩ := assigned_is_read hs he (m := ⟨store, 0, #[]⟩) rfl
        (hheld held _) 0 (Prod.ext hdone rfl)
      obtain ⟨hv, rfl⟩ := Prod.mk.inj heval
      obtain rfl := Except.ok.inj hv
      rcases hstored with hstored | ⟨o, howner, -, -⟩
      · rwa [hheld] at hstored
      · rw [hheld] at howner
        cases hfind.symm.trans howner
    · cases hassigns

/-- a class whose method assigns to `me` -/
def assignedReceiver : Block :=
  ⟨⟨"page", 1, 1⟩,
    [.class ⟨⟨"page", 1, 1⟩, "C", [],
      [⟨⟨"page", 2, 3⟩, .sub, "m", [], ⟨⟨"page", 3, 5⟩,
        [.assign ⟨"page", 3, 8⟩ (.path ⟨"page", 3, 5⟩ ["me"])
          (.literal ⟨"page", 3, 10⟩ (.integer 5))]⟩⟩]⟩,
    .dim ⟨⟨"page", 6, 5⟩, "o"⟩,
    .assign ⟨"page", 7, 7⟩ (.path ⟨"page", 7, 5⟩ ["o"]) (.new ⟨"page", 7, 9⟩ "C"),
    .expr ⟨"page", 8, 1⟩ (.path ⟨"page", 8, 1⟩ ["o", "m"])]⟩

/-- `me = 5` -/
def assignReceiver : Stmt :=
  .assign ⟨"page", 3, 8⟩ (.path ⟨"page", 3, 5⟩ ["me"]) (.literal ⟨"page", 3, 10⟩ (.integer 5))

/-- whether a statement starts where `me = 5` can be carried out, and `me` is something else then -/
def losesFive (s : Session) : Event → Bool
  | .step .. => false
  | .start c _ held store =>
    let done := s.performed assignReceiver c held store
    match (Action.lookup .variable c "me").outcome held done.2.store with
    | (.ok (some id), after) => done.1 = .ok .normal ∧ after.slot id ≠ .integer 5
    | _ => false

/-- in the method the assignment is carried out, and what `me` is afterwards is not the value -/
theorem assignedReceiver_not_stored :
    let s := (start .default false).registerResponse
    ∃ c l held store, .start c l held store ∈ (s.traced 0 assignedReceiver).2.log ∧
      (s.performed assignReceiver c held store).1 = .ok .normal ∧
      ¬ store.Stored c "me" (.integer 5) held
        (s.performed assignReceiver c held store).2.store := by
  have hevent : ((start .default false).registerResponse.traced 0 assignedReceiver).2.log.any
      (losesFive (start .default false).registerResponse) = true := by decide +kernel
  generalize (start .default false).registerResponse = s at hevent ⊢
  obtain ⟨e, he, hloses⟩ := List.any_eq_true.mp hevent
  cases e with
  | step => cases hloses
  | start c l held store =>
    simp only [losesFive] at hloses
    split at hloses
    · rename_i id after hlookup
      obtain ⟨hdone, hother⟩ := of_decide_eq_true hloses
      refine ⟨c, l, held, store, he, hdone, ?_⟩
      rintro ⟨id', hvalue, hread, -⟩
      obtain ⟨hid, rfl⟩ := Prod.mk.inj (hlookup.symm.trans (hread "me" rfl))
      obtain rfl := Option.some.inj (Except.ok.inj hid)
      exact hother hvalue
    · cases hloses

end Session

end PageScript
