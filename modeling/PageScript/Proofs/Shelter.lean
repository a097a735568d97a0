import PageScript.Proofs.Eval.Discipline
import PageScript.Proofs.Host
import PageScript.Proofs.Store.Homes
import PageScript.Proofs.Store.Liveness

/-!
# Scopes that are needed are held

A scope does not hold the scopes around it, and a function does not hold the scope that it belongs
to.  What keeps them alive are the calls in progress: while a function runs, its own scope and the
scope that it belongs to are held, and so, further out, are the scopes around, since whoever has
found the function by name runs inside the scope that it belongs to.  Only instances break this
chain: an instance can leave the scopes around its own scope behind, and its methods are reached
through it.

So a scope around the one where code runs is held, or it lies around the scope of some instance: it
is sheltered (`Store.Sheltered`).  As long as the host offers nothing but `response`, whole runs
keep to this (`sheltering`), and if a run ends because a scope is gone, then this scope is the scope
of an instance or lies around it (`Store.Loses`).

* `Session.Hosted`           the sessions of such a host;
* `Session.Hosted.housed`    their stores;
* `Session.kept_of_housed`   their runs keep scopes sheltered.
-/

namespace PageScript

open Eval Runner

/-! ## what is held -/

theorem Env.mem_heldIn (env : Env) {r : Ref} (h : r ∈ env.held) (m : Machine) :
    r ∈ env.heldIn m := by
  unfold Env.heldIn
  split
  · exact List.mem_append_left _ h
  · exact h

theorem Env.heldIn_mono (env : Env) {held held' : List Ref} (h : ∀ r ∈ held, r ∈ held')
    (m : Machine) {r : Ref} (hr : r ∈ { env with held }.heldIn m) :
    r ∈ { env with held := held' }.heldIn m := by
  unfold Env.heldIn at hr ⊢
  dsimp only at hr ⊢
  split at hr
  · rename_i hkeeps
    rw [if_pos hkeeps]
    exact List.mem_append.mpr ((List.mem_append.mp hr).imp_left (h r))
  · rename_i hkeeps
    rw [if_neg hkeeps]
    exact h r hr

namespace Store

variable {s s' : Store} {globals : ScopeId}

/-! ## shelter -/

/-- the scopes around a scope around are scopes around -/
theorem Nested.outer_of_mem {n : Nat} (h : s.Nested n) {c p q : ScopeId}
    (hp : p ∈ (s.scope c).outer) (hq : q ∈ (s.scope p).outer) : q ∈ (s.scope c).outer := by
  obtain ⟨i, hi⟩ : ∃ i, c.index = i := ⟨_, rfl⟩
  induction i using Nat.strong_induction_on generalizing c with
  | _ i ih =>
    rcases h.chain c with hnone | ⟨right, hlt, houter⟩
    · rw [hnone] at hp
      cases hp
    · rw [houter] at hp ⊢
      rcases List.mem_cons.mp hp with rfl | hp
      · exact List.mem_cons_of_mem _ hq
      · exact List.mem_cons_of_mem _ (ih right.index (hi ▸ hlt) hp rfl)

/-- stores of a host that offers nothing but `response` -/
structure Housed (globals : ScopeId) (s : Store) : Prop where
  inOrder : s.InOrder
  homed : s.Homed globals
  nested : s.Nested s.scopes.size

namespace Housed

theorem newSlot (h : s.Housed globals) (v : Value) : (s.newSlot v).2.Housed globals :=
  ⟨h.inOrder.newSlot v, h.homed.newSlot h.inOrder v, (h.nested.newSlot v).all⟩

theorem setSlot (h : s.Housed globals) (id : SlotId) {v : Value} (hv : v.NoFunction) :
    (s.setSlot id v).Housed globals :=
  ⟨h.inOrder.setSlot id hv, h.homed.setSlot h.inOrder id hv, (h.nested.setSlot id v).all⟩

theorem declare (h : s.Housed globals) (c : ScopeId) (n : String) {v : Value} (hv : v.NoFunction) :
    (s.declare c n v).2.Housed globals :=
  ⟨h.inOrder.declare c n v, h.homed.declare h.inOrder c n hv, (h.nested.declare c n v).all⟩

theorem newObject (h : s.Housed globals) (className : String) :
    (s.newObject ⟨className, .empty, none⟩).2.Housed globals :=
  ⟨h.inOrder.newObject className none, h.homed.newObject h.inOrder className fun _ h => (nomatch h),
    (h.nested.newObject _).all⟩

theorem define (h : s.Housed globals) (o : ObjectId) (n : String) {v : Value}
    (hv : ∀ f, v = .function f → f.index < s.functions.size ∧ homeOf (s.function f) = globals) :
    (s.define o n v).2.Housed globals := by
  refine ⟨(h.inOrder.newSlot v).addField o n (s.lt_newSlot v), ?_,
    ((h.nested.newSlot v).addField o n _).all⟩
  refine (h.homed.newSlot h.inOrder v).addField (h.inOrder.newSlot v) o n fun f hf => ?_
  have hslot : (s.newSlot v).2.slot (s.newSlot v).1 = v := (s.slot_newSlot v _).trans (if_pos rfl)
  exact (hv f (hslot.symm.trans hf)).imp_right .inr

theorem newResponse (h : s.Housed globals) : (s.newResponse globals).2.Housed globals := by
  have hfunction : (s.newFunction (.host "write" globals .write)).2.Housed globals :=
    ⟨h.inOrder.newFunction _,
      h.homed.newFunction h.inOrder fun _ _ _ h => (Function.host.inj h).2.2.symm,
      h.nested.newFunction h.homed.there⟩
  refine (hfunction.newObject "Response").define _ "write" fun f hf => ?_
  obtain rfl := Value.function.inj hf
  refine ⟨(Nat.lt_succ_self _).trans_eq (Array.size_push _).symm, ?_⟩
  have hnew := (s.function_newFunction (.host "write" globals .write) _).trans (if_pos rfl)
  exact congrArg homeOf hnew

theorem hoist (h : s.Housed globals) {c : ScopeId} (hc : c.index < s.scopes.size) (b : Block) :
    (b.hoist c s).Housed globals := by
  have hsteps := s.equips_hoist c b
  exact ⟨hsteps.inOrder h.inOrder, hsteps.homed h.inOrder h.homed, (h.nested.hoistBlock hc b).all⟩

theorem newInstance (h : s.Housed globals) (d : ClassDecl) {home : ScopeId}
    (hhome : home.index < s.scopes.size) : (s.newInstance d home).2.Housed globals := by
  have hsteps := s.equips_newInstance d home
  exact ⟨hsteps.inOrder (h.inOrder.opened d home),
    hsteps.homed (h.inOrder.opened d home) (h.homed.opened h.inOrder d home),
    (h.nested.newInstance d hhome).all⟩

theorem activate (h : s.Housed globals) (byRef : Bool) (d : FunctionDecl) {home : ScopeId}
    (hhome : home.index < s.scopes.size) {args : List SlotId} (hargs : ∀ arg ∈ args, s.Plain arg) :
    (activate byRef d home args s).2.Housed globals := by
  have hsteps := s.equips_activate byRef (d := d) home hargs
  exact ⟨hsteps.inOrder (h.inOrder.newScope _ _ _),
    hsteps.homed (h.inOrder.newScope _ _ _) (h.homed.newScope h.inOrder _ _ _),
    (h.nested.activate byRef d hhome args).all⟩

end Housed

theorem housed_first (isExplicit : Bool) : (empty.newGlobal isExplicit).2.Housed ⟨0⟩ where
  inOrder := inOrder_empty.newScope [] isExplicit none
  homed := by
    refine ⟨fun c n id f h => ?_, fun o n id f h => (nomatch h), fun f n home r h => ?_,
      fun o c h => (nomatch h), Nat.zero_lt_one, rfl⟩
    · rw [newGlobal, scope_newScope] at h
      split at h <;> cases h
    · exact (Function.host.inj h).2.2.symm
  nested := nested_first isExplicit

/-- a scope is held, or lies around the scope of an instance -/
def Sheltered (held : List Ref) (s : Store) (c : ScopeId) : Prop :=
  .scope c ∈ held ∨
    ∃ o own, (s.object o).scope = some own ∧ own.index < s.scopes.size ∧ c ∈ (s.scope own).outer

theorem Sheltered.mono {held held' : List Ref} {c : ScopeId} (h : s.Sheltered held c)
    (hheld : ∀ r ∈ held, r ∈ held') (hgrows : s.Grows s') : s'.Sheltered held' c := by
  refine h.imp (hheld _) ?_
  rintro ⟨o, own, ho, hown, hc⟩
  exact ⟨o, own, hgrows.owned o own ho, hown.trans_le hgrows.scopes,
    (hgrows.outer own hown).symm ▸ hc⟩

/-- a scope where code can run: it is there, and with all scopes around it it is sheltered -/
structure Fit (globals : ScopeId) (held : List Ref) (s : Store) (c : ScopeId) : Prop where
  globals : .scope globals ∈ held
  there : c.index < s.scopes.size
  sheltered : ∀ p ∈ c :: (s.scope c).outer, s.Sheltered held p

theorem Fit.mono {held held' : List Ref} {c : ScopeId} (h : s.Fit globals held c)
    (hheld : ∀ r ∈ held, r ∈ held') (hgrows : s.Grows s') : s'.Fit globals held' c where
  globals := hheld _ h.globals
  there := h.there.trans_le hgrows.scopes
  sheltered p hp := by
    rw [hgrows.outer c h.there] at hp
    exact (h.sheltered p hp).mono hheld hgrows

/-- a function that code in a scope can come by: it belongs to the scope or to one around it, or it
is the host's, or a method -/
structure Callable (globals : ScopeId) (s : Store) (c : ScopeId) (f : FunctionId) : Prop where
  there : f.index < s.functions.size
  home : c.index < s.scopes.size ∧ homeOf (s.function f) ∈ c :: (s.scope c).outer ∨
    homeOf (s.function f) = globals ∨ ∃ o, (s.object o).scope = some (homeOf (s.function f))

theorem Callable.mono {c : ScopeId} {f : FunctionId} (h : s.Callable globals c f)
    (hgrows : s.Grows s') : s'.Callable globals c f := by
  refine ⟨h.there.trans_le hgrows.functions, ?_⟩
  rw [hgrows.function f h.there]
  refine h.home.imp ?_ (Or.imp_right ?_)
  · rintro ⟨hc, hhome⟩
    exact ⟨hc.trans_le hgrows.scopes, (hgrows.outer c hc).symm ▸ hhome⟩
  · rintro ⟨o, ho⟩
    exact ⟨o, hgrows.owned o _ ho⟩

/-- a function that is entered runs in a scope that is fit, while this scope and the one that the
function belongs to are held -/
theorem Fit.activate {held : List Ref} {c : ScopeId} {f : FunctionId} {d : FunctionDecl}
    {home : ScopeId} {args : List SlotId} (hc : s.Fit globals held c) (hs : s.Housed globals)
    (hf : s.Callable globals c f) (hfunction : s.function f = .script d home)
    (hargs : ∀ arg ∈ args, s.Plain arg) (byRef : Bool) :
    (activate byRef d home args s).2.Fit globals
      (.scope home :: .scope ⟨s.scopes.size⟩ :: held) ⟨s.scopes.size⟩ := by
  have hhome : homeOf (s.function f) = home := congrArg homeOf hfunction
  have hgrows := s.grows_activate byRef (d := d) home hargs
  have hheld : ∀ r ∈ held, r ∈ .scope home :: .scope ⟨s.scopes.size⟩ :: held :=
    fun r hr => List.mem_cons_of_mem _ (List.mem_cons_of_mem _ hr)
  refine ⟨hheld _ hc.globals, s.lt_activate byRef home hargs, fun p hp => ?_⟩
  rw [s.outer_activate byRef home hargs] at hp
  rcases List.mem_cons.mp hp with rfl | hp
  · exact .inl (by simp)
  rcases List.mem_cons.mp hp with rfl | hp
  · exact .inl (by simp)
  -- the scopes further out are sheltered because the function was found from here
  rcases hhome ▸ hf.home with ⟨-, hmem⟩ | rfl | ⟨o, ho⟩
  · refine (hc.sheltered p (List.mem_cons_of_mem _ ?_)).mono hheld hgrows
    rcases List.mem_cons.mp hmem with rfl | hmem
    · exact hp
    · exact hs.nested.outer_of_mem hmem hp
  · rw [hs.homed.outermost] at hp
    cases hp
  · exact .mono (.inr ⟨o, home, ho, hhome ▸ hs.nested.home f, hp⟩) hheld hgrows

/-- there is an instance that has lost a scope around its own, or its own scope and with it the
methods that belong there -/
def Loses (held : List Ref) (s : Store) : Prop :=
  ∃ o own, (s.object o).scope = some own ∧
    ((∃ p ∈ (s.scope own).outer, s.alive held (.scope p) = false) ∨
      s.alive held (.scope own) = false ∧
        ∃ f, f.index < s.functions.size ∧ homeOf (s.function f) = own)

theorem Loses.mono {held held' : List Ref} (hheld : ∀ r ∈ held, r ∈ held') (h : s.Loses held') :
    s.Loses held := by
  obtain ⟨o, own, ho, hlost⟩ := h
  refine ⟨o, own, ho, hlost.imp ?_ (And.imp_left (s.not_alive_of_subset hheld))⟩
  rintro ⟨p, hp, hdropped⟩
  exact ⟨p, hp, s.not_alive_of_subset hheld hdropped⟩

/-- if a sheltered scope is gone, then an instance has lost it -/
theorem Sheltered.loses {held H : List Ref} {p : ScopeId} (h : s.Sheltered held p)
    (hheld : ∀ r ∈ held, r ∈ H) (hdropped : s.alive H (.scope p) = false) : s.Loses H := by
  rcases h with hmem | ⟨o, own, ho, -, hp⟩
  · rw [s.alive_of_mem (hheld _ hmem)] at hdropped
    cases hdropped
  · exact ⟨o, own, ho, .inl ⟨p, hp, hdropped⟩⟩

end Store

/-! ## the routine of the host -/

/-- `write` changes nothing but the page -/
theorem Routine.write_spec (l : Location) (home : ScopeId) (args : List SlotId) (env : Env)
    (m : Machine) :
    let o := (Routine.write.call l home args).outcome env m
    o.2.store = m.store ∧ (∀ v, o.1 = .ok v → v = .empty) ∧
      ∀ e, o.1 = .error e → e.fault ≠ .scopeDropped := by
  have hrefused : ∀ message : String, ∀ e : RuntimeError,
      (Except.error ⟨l, .host message⟩ : Except RuntimeError Value) = .error e →
        e.fault ≠ .scopeDropped := by
    rintro message e he
    obtain rfl := Except.error.inj he
    exact fun h => nomatch h
  match args with
  | [] => exact ⟨rfl, fun v hv => (nomatch hv), hrefused _⟩
  | [slot] => exact ⟨rfl, fun v hv => (Except.ok.inj hv).symm, fun e he => nomatch he⟩
  | a :: b :: rest => exact ⟨rfl, fun v hv => (nomatch hv), hrefused _⟩

/-! ## the discipline -/

/-- code runs in scopes that are sheltered -/
def sheltering (env : Env) (block : Block) (globals : ScopeId) : Discipline where
  env := env
  block := block
  top := globals
  ok := Store.Housed globals
  le := Store.Grows
  le_refl := .refl
  le_trans := .trans
  quiet := Store.Quiet
  quiet_refl := .refl
  quiet_trans := .trans
  scope held s c := s.Fit globals held c
  scope_mono hheld hle hc := hc.mono hheld.all hle
  value _ v := v.NoFunction
  value_mono _ hv := hv
  value_data := Value.noFunction_of_isReference
  slot := Store.Plain
  slot_mono hle hid := hle.plain hid
  value_slot _ hid := hid.2
  place s c id := id.index < s.slots.size ∧ ∀ f, s.slot id = .function f → s.Callable globals c f
  place_slot hid := ⟨hid.1, fun f hf => absurd hf (hid.2 f)⟩
  slot_place _ hid hv := ⟨hid.1, hv⟩
  callable s c f := s.Callable globals c f
  callable_mono hle hf := hf.mono hle
  callable_place _ hid hf := hid.2 _ hf
  callable_value hv := absurd rfl (hv _)
  moment H s c := ∀ p ∈ c :: (s.scope c).outer, s.Sheltered H p
  admit_start {held m c} _ hc p hp := (hc.sheltered p hp).imp_left fun hmem =>
    { env with held }.mem_heldIn hmem m
  error held m e := e.fault = .scopeDropped → m.store.Loses ({ env with held }.heldIn m)
  error_mono hheld herror hfault := (herror hfault).mono fun r => env.heldIn_mono hheld _
  error_other hfault h := absurd h hfault
  error_outer {held m c p l} _ hc hp hdropped _ :=
    (hc.sheltered p (List.mem_cons_of_mem _ hp)).loses
      (fun r hr => { env with held }.mem_heldIn hr m) hdropped
  error_home {held m c f l} _ hc hf hdropped _ := by
    have hheld : ∀ r ∈ held, r ∈ { env with held }.heldIn m :=
      fun r hr => { env with held }.mem_heldIn hr m
    rcases hf.home with ⟨-, hhome⟩ | hglobal | ⟨o, ho⟩
    · exact (hc.sheltered _ hhome).loses hheld hdropped
    · rw [hglobal, m.store.alive_of_mem (hheld _ hc.globals)] at hdropped
      cases hdropped
    · exact ⟨o, _, ho, .inr ⟨hdropped, f, hf.there, rfl⟩⟩
  place_found {_ _ s c use n id} hok hc hfound := by
    obtain ⟨p, hp, hhere⟩ := s.exists_of_searchFrom hfound
    rcases Store.slot_of_findHere hhere with hbound | ⟨hlt, rfl⟩
    · refine ⟨hok.inOrder.bound p n id hbound, fun f hf => ?_⟩
      obtain ⟨hthere, hhome⟩ := hok.homed.binding p n id f hbound hf
      exact ⟨hthere, .inl ⟨hc.there, hhome ▸ hp⟩⟩
    · have hplain := hok.inOrder.result p hlt
      exact ⟨hplain.1, fun f hf => absurd hf (hplain.2 f)⟩
  value_owner _ _ _ := fun _ h => nomatch h
  place_member {s c o n id} hok _ hfield := by
    refine ⟨hok.inOrder.field o n id hfield, fun f hf => ?_⟩
    obtain ⟨hthere, hhome⟩ := hok.homed.field o n id f hfield hf
    exact ⟨hthere, .inr (hhome.symm.imp_right fun ho => ⟨o, ho⟩)⟩
  admit_newSlot {s v} hok hv :=
    ⟨⟨hok.newSlot v, s.grows_newSlot v, .newSlot s v⟩, s.plain_newSlot hv⟩
  admit_setSlot {s _ id v} hok _ hv :=
    ⟨hok.setSlot id hv, s.grows_setSlot id hv, .setSlot s id v⟩
  admit_declare {_ s c n} hok _ hlax := by
    refine ⟨⟨hok.declare c n Value.noFunction_empty, s.grows_declare c n _,
      .declare s n _ hlax⟩, ?_⟩
    exact ⟨s.lt_newSlot _, fun f hf => absurd hf ((s.plain_newSlot Value.noFunction_empty).2 f)⟩
  admit_define {s o n v} hok _ _ hv :=
    ⟨hok.define o n fun f hf => absurd hf (hv f),
      (s.grows_newSlot v).trans (Store.grows_addField _ o n _), .define s o n v⟩
  admit_hoist {_ s} hok hc := ⟨hok.hoist hc.there block, (s.equips_hoist globals block).grows⟩
  admit_newInstance {_ s c home _ d} hok hc hhome _ _ := by
    have hlt : home.index < s.scopes.size := by
      rcases List.mem_cons.mp hhome with rfl | hmem
      · exact hc.there
      · exact (hok.nested.lt_of_mem_outer hmem).trans hc.there
    have hgrows := s.grows_newInstance d home
    exact ⟨⟨hok.newInstance d hlt, hgrows⟩, fun _ h => (nomatch h),
      hc.mono (fun r hr => List.mem_append_right _ hr) hgrows⟩
  admit_enter {_ s _ f d home _} hok hc hf hfunction _ hargs := by
    have hlt := hok.nested.home f
    rw [hfunction] at hlt
    exact ⟨⟨hok.activate _ d hlt hargs, s.grows_activate _ home hargs⟩,
      hc.activate hok hf hfunction hargs _⟩
  slot_result hok hc := hok.inOrder.result _ hc.there
  admit_routine held {_ m _ f n home r args l} hok _ _ hfunction _ := by
    obtain rfl := hok.homed.routine f n home r hfunction
    obtain ⟨hsame, hvalue, herror⟩ := Routine.write_spec l home args { env with held } m
    refine ⟨?_, fun v hv => ?_, herror⟩
    · rw [hsame]
      exact ⟨hok, .refl _, .refl _⟩
    · rw [hvalue v hv]
      exact Value.noFunction_empty

/-! ## the sessions of a host that offers nothing but `response` -/

namespace Session

/-- the sessions of a host that registers `response`, values that are no functions and objects of
its own, and runs blocks as `P` says -/
abbrev Hosted (P : Block → Prop) : Session → Prop := Under fun
  | _, .pin _ | _, .clearOutput | _, .registerResponse | _, .newObject _ => True
  | _, .register _ v | _, .define _ _ v => v.NoFunction
  | s, .runBlock _ scope block => scope = s.globals ∧ P block
  | _, _ => False

abbrev traced (s : Session) (steps : Nat) (block : Block) : Except RuntimeError Unit × Traced :=
  Trace.run s.globals block s.env ⟨s.store, steps, s.output⟩

theorem traced_eq (s : Session) (steps : Nat) (block : Block) :
    let ended := s.perform steps (runBlock s.globals block)
    (s.traced steps block).1 = ended.1 ∧
      (s.traced steps block).2.machine = ⟨ended.2.2.store, ended.2.1, ended.2.2.output⟩ :=
  Trace.run_eq s.globals block s.env ⟨s.store, steps, s.output⟩

theorem store_perform (s : Session) (steps : Nat) (block : Block) :
    (s.perform steps (runBlock s.globals block)).2.2.store
      = (s.traced steps block).2.machine.store :=
  (congrArg Machine.store (s.traced_eq steps block).2).symm

theorem kept_of_housed {s : Session} (hs : s.store.Housed s.globals) (steps : Nat) (block : Block) :
    (sheltering s.env block s.globals).Kept s.env.held s.store [] (fun _ _ => True)
      (s.traced steps block) := by
  have hfit : s.store.Fit s.globals s.env.held s.globals := by
    refine ⟨List.mem_cons_self, hs.homed.there, fun p hp => ?_⟩
    rw [hs.homed.outermost] at hp
    exact .inl (List.mem_singleton.mp hp ▸ List.mem_cons_self)
  exact Discipline.run (D := sheltering s.env block s.globals) (m := ⟨s.store, steps, s.output⟩)
    hs hfit

theorem Hosted.housed {P : Block → Prop} {s : Session} (h : s.Hosted P) :
    s.store.Housed s.globals :=
  h.upheld (I := fun globals store => store.Housed globals)
    { start := Store.housed_first
      register := fun {_ name _} _ hv ih => ih.declare _ name fun f hf => absurd hf (hv f)
      registerResponse := fun _ _ ih => ih.newResponse.declare _ "response" fun _ h => nomatch h
      newObject := fun {_ className} _ _ ih => ih.newObject className
      define := fun {_ id name _} _ hv ih => ih.define id name fun f hf => absurd hf (hv f)
      runBlock := fun {s steps _ block} _ hblock ih => by
        obtain ⟨rfl, -⟩ := hblock
        rw [store_perform]
        exact (kept_of_housed ih steps block).ok }

end Session

end PageScript
