import PageScript.Proofs.Store.Building

/-!
# What leads where

From a scope code gets to the slots that it binds and to the slot of its result, to the scopes around
it and, through `me`, to its instance; from a slot to the object or function in it; from an object to
its members and to the scope of the instance; from a function to the scope that it belongs to.

A region of a store that nothing leads out of stays one, as long as what is created or changed leads
into the region only.  Everything outside of it then stays as it is, since whoever wants to change
something has to get there first.

* `Store.at?`        what a thing of a store is;
* `Store.Leads`      one thing leads to another;
* `Store.Reaches`    it does so after any number of steps, from one of some things;
* `Store.Confined`   only things of a region, or new ones, have changed.
-/

namespace PageScript

open Eval

inductive Entity
  | scope (id : ScopeId)
  | slot (id : SlotId)
  | object (id : ObjectId)
  | function (id : FunctionId)
deriving DecidableEq

inductive Content
  | scope (sc : Scope)
  | slot (v : Value)
  | object (o : Object)
  | function (f : Function)

/-- what a thing leads to -/
inductive Content.Leads : Content → Entity → Prop
  | binding {sc : Scope} {n : String} {id : SlotId} : sc.bindings.find? n = some id →
    Leads (.scope sc) (.slot id)
  | result (sc : Scope) : Leads (.scope sc) (.slot sc.result)
  | outer {sc : Scope} {p : ScopeId} : p ∈ sc.outer → Leads (.scope sc) (.scope p)
  | owner {sc : Scope} {o : ObjectId} : sc.owner = some o → Leads (.scope sc) (.object o)
  | object (o : ObjectId) : Leads (.slot (.object o)) (.object o)
  | function (f : FunctionId) : Leads (.slot (.function f)) (.function f)
  | field {o : Object} {n : String} {id : SlotId} : o.fields.find? n = some id →
    Leads (.object o) (.slot id)
  | own {o : Object} {c : ScopeId} : o.scope = some c → Leads (.object o) (.scope c)
  | home (d : FunctionDecl) (home : ScopeId) : Leads (.function (.script d home)) (.scope home)

theorem Content.not_leads_empty (y : Entity) : ¬ (Content.slot .empty).Leads y := nofun

/-- a scope leads where another one with the same names, result and surroundings leads -/
theorem Content.Leads.of_scope {sc sc' : Scope} {y : Entity} (h : (Content.scope sc').Leads y)
    (hbindings : sc'.bindings = sc.bindings) (hresult : sc'.result = sc.result)
    (houter : sc'.outer = sc.outer) (howner : sc'.owner = sc.owner) :
    (Content.scope sc).Leads y := by
  cases h with
  | binding hbound => exact .binding (hbindings ▸ hbound)
  | result => exact hresult ▸ .result sc
  | outer hp => exact .outer (houter ▸ hp)
  | owner ho => exact .owner (howner ▸ ho)

namespace Store

variable {s s' : Store}

/-! ## things of a store -/

/-- what a thing is, if it is there -/
def at? (s : Store) : Entity → Option Content
  | .scope c => s.scopes[c.index]?.map .scope
  | .slot id => s.slots[id.index]?.map .slot
  | .object o => s.objects[o.index]?.map .object
  | .function f => s.functions[f.index]?.map .function

theorem at?_freshScope (s : Store) : s.at? (.scope ⟨s.scopes.size⟩) = none := by simp [at?]

theorem at?_freshSlot (s : Store) : s.at? (.slot ⟨s.slots.size⟩) = none := by simp [at?]

theorem at?_freshObject (s : Store) : s.at? (.object ⟨s.objects.size⟩) = none := by simp [at?]

theorem at?_freshFunction (s : Store) : s.at? (.function ⟨s.functions.size⟩) = none := by simp [at?]

theorem at?_newSlot (s : Store) (v : Value) (x : Entity) :
    (s.newSlot v).2.at? x = if x = .slot (s.newSlot v).1 then some (.slot v) else s.at? x := by
  cases x with
  | slot id =>
    obtain ⟨i⟩ := id
    simp only [at?, newSlot, Array.getElem?_push, Entity.slot.injEq, SlotId.mk.injEq]
    split <;> rfl
  | _ => rfl

theorem at?_setSlot (s : Store) (id : SlotId) (v : Value) (x : Entity) :
    (s.setSlot id v).at? x
      = if x = .slot id then (s.at? x).map fun _ => .slot v else s.at? x := by
  cases x with
  | slot other =>
    obtain ⟨i⟩ := id
    obtain ⟨j⟩ := other
    simp only [at?, setSlot, Array.getElem?_setIfInBounds, Entity.slot.injEq, SlotId.mk.injEq]
    by_cases hij : i = j
    · subst hij
      by_cases hi : i < s.slots.size
      · simp [hi]
      · simp [hi]
    · simp [hij, Ne.symm hij]
  | _ => rfl

theorem at?_newObject (s : Store) (o : Object) (x : Entity) :
    (s.newObject o).2.at? x
      = if x = .object (s.newObject o).1 then some (.object o) else s.at? x := by
  cases x with
  | object id =>
    obtain ⟨i⟩ := id
    simp only [at?, newObject, Array.getElem?_push, Entity.object.injEq, ObjectId.mk.injEq]
    split <;> rfl
  | _ => rfl

theorem at?_newFunction (s : Store) (f : Function) (x : Entity) :
    (s.newFunction f).2.at? x
      = if x = .function (s.newFunction f).1 then some (.function f) else s.at? x := by
  cases x with
  | function id =>
    obtain ⟨i⟩ := id
    simp only [at?, newFunction, Array.getElem?_push, Entity.function.injEq, FunctionId.mk.injEq]
    split <;> rfl
  | _ => rfl

theorem at?_newScope (s : Store) (outer : List ScopeId) (isExplicit : Bool) (name : Option String)
    (x : Entity) :
    (s.newScope outer isExplicit name).2.at? x
      = if x = .scope ⟨s.scopes.size⟩ then some (.scope (s.freshScope outer isExplicit name))
        else (s.newSlot .empty).2.at? x := by
  cases x with
  | scope id =>
    obtain ⟨i⟩ := id
    simp only [at?, newScope, newSlot, Array.getElem?_push, Entity.scope.injEq, ScopeId.mk.injEq]
    split <;> rfl
  | _ => rfl

theorem at?_modifyScope (s : Store) (c : ScopeId) (f : Scope → Scope) (x : Entity) :
    (s.modifyScope c f).at? x
      = if x = .scope c then (s.at? (.scope c)).map fun _ => .scope (f (s.scope c))
        else s.at? x := by
  cases x with
  | scope id =>
    obtain ⟨i⟩ := c
    obtain ⟨j⟩ := id
    simp only [at?, modifyScope, scope, Array.getElem?_modify, Entity.scope.injEq, ScopeId.mk.injEq]
    by_cases hij : i = j
    · subst hij
      cases s.scopes[i]? <;> simp
    · simp [hij, Ne.symm hij]
  | _ => rfl

theorem at?_modifyObject (s : Store) (o : ObjectId) (f : Object → Object) (x : Entity) :
    (s.modifyObject o f).at? x
      = if x = .object o then (s.at? (.object o)).map fun _ => .object (f (s.object o))
        else s.at? x := by
  cases x with
  | object id =>
    obtain ⟨i⟩ := o
    obtain ⟨j⟩ := id
    simp only [at?, modifyObject, object, Array.getElem?_modify, Entity.object.injEq,
      ObjectId.mk.injEq]
    by_cases hij : i = j
    · subst hij
      cases s.objects[i]? <;> simp
    · simp [hij, Ne.symm hij]
  | _ => rfl

theorem lt_of_at?_scope {c : ScopeId} (h : s.at? (.scope c) ≠ none) :
    c.index < s.scopes.size := by
  by_contra hlt
  exact h (by simp [at?, hlt])

theorem lt_of_at?_object {o : ObjectId} (h : s.at? (.object o) ≠ none) :
    o.index < s.objects.size := by
  by_contra hlt
  exact h (by simp [at?, hlt])

theorem at?_scope {c : ScopeId} (h : c.index < s.scopes.size) :
    s.at? (.scope c) = some (.scope (s.scope c)) := by
  simp [at?, scope, h]

theorem at?_slot {id : SlotId} (h : id.index < s.slots.size) :
    s.at? (.slot id) = some (.slot (s.slot id)) := by
  simp [at?, slot, h]

theorem at?_object {o : ObjectId} (h : o.index < s.objects.size) :
    s.at? (.object o) = some (.object (s.object o)) := by
  simp [at?, object, h]

theorem at?_function {f : FunctionId} (h : f.index < s.functions.size) :
    s.at? (.function f) = some (.function (s.function f)) := by
  simp [at?, function, h]

/-! ## ways -/

/-- one thing leads to another -/
def Leads (s : Store) (x y : Entity) : Prop := ∃ k, s.at? x = some k ∧ k.Leads y

/-- one of some things leads to a thing, over any number of others -/
def Reaches (s : Store) (roots : Entity → Prop) (x : Entity) : Prop :=
  ∃ root, roots root ∧ Relation.ReflTransGen s.Leads root x

theorem leads_binding {c : ScopeId} {n : String} {id : SlotId}
    (h : (s.scope c).bindings.find? n = some id) : s.Leads (.scope c) (.slot id) :=
  ⟨_, at?_scope (lt_of_bindings h), .binding h⟩

theorem leads_result {c : ScopeId} (h : c.index < s.scopes.size) :
    s.Leads (.scope c) (.slot (s.scope c).result) :=
  ⟨_, at?_scope h, .result _⟩

theorem leads_outer {c p : ScopeId} (h : p ∈ (s.scope c).outer) :
    s.Leads (.scope c) (.scope p) := by
  have hlt : c.index < s.scopes.size := by
    by_contra hlt
    rw [outer_of_size_le (not_lt.mp hlt)] at h
    cases h
  exact ⟨_, at?_scope hlt, .outer h⟩

theorem leads_owner {c : ScopeId} {o : ObjectId} (h : (s.scope c).owner = some o) :
    s.Leads (.scope c) (.object o) := by
  have hlt : c.index < s.scopes.size := by
    by_contra hlt
    rw [scope, Array.getElem?_eq_none (not_lt.mp hlt)] at h
    cases h
  exact ⟨_, at?_scope hlt, .owner h⟩

theorem leads_field {o : ObjectId} {n : String} {id : SlotId} (h : s.field? o n = some id) :
    s.Leads (.object o) (.slot id) := by
  have hlt : o.index < s.objects.size := by
    by_contra hlt
    rw [field?, object, Array.getElem?_eq_none (not_lt.mp hlt)] at h
    cases h
  exact ⟨_, at?_object hlt, .field h⟩

theorem leads_home {f : FunctionId} {d : FunctionDecl} {home : ScopeId}
    (h : s.function f = .script d home) : s.Leads (.function f) (.scope home) := by
  have hlt : f.index < s.functions.size := by
    by_contra hlt
    rw [function, Array.getElem?_eq_none (not_lt.mp hlt)] at h
    cases h
  exact ⟨_, at?_function hlt, h ▸ .home d home⟩

/-- what a value that a slot holds leads to, the slot leads to -/
theorem leads_slot {id : SlotId} {y : Entity} (h : (Content.slot (s.slot id)).Leads y) :
    s.Leads (.slot id) y := by
  have hlt : id.index < s.slots.size := by
    by_contra hlt
    rw [slot, Array.getElem?_eq_none (not_lt.mp hlt)] at h
    cases h
  exact ⟨_, at?_slot hlt, h⟩

/-- what is reached is a root, or something leads to it -/
theorem Reaches.root_or_leads {roots : Entity → Prop} {x : Entity} (h : s.Reaches roots x) :
    roots x ∨ ∃ y, s.Leads y x := by
  obtain ⟨root, hroot, hpath⟩ := h
  cases hpath with
  | refl => exact .inl hroot
  | tail _ hlast => exact .inr ⟨_, hlast⟩

/-! ## confinement -/

/-- everything that is there stays there -/
def Stays (s s' : Store) : Prop := ∀ x, s'.at? x = none → s.at? x = none

/-- nothing leads out of a region, which everything new belongs to, and everything outside of it is
what it was at first -/
structure Confined (R : Entity → Prop) (first s : Store) : Prop where
  fresh : ∀ x, first.at? x = none → R x
  stays : first.Stays s
  closed : ∀ {x y}, R x → s.Leads x y → R y
  same : ∀ x, ¬ R x → s.at? x = first.at? x

/-- a thing is not there at first, or can be reached -/
def Within (first : Store) (roots : Entity → Prop) (x : Entity) : Prop :=
  first.at? x = none ∨ first.Reaches roots x

theorem confined_within (first : Store) (roots : Entity → Prop) :
    Confined (first.Within roots) first first where
  fresh _ hx := .inl hx
  stays _ hx := hx
  closed := by
    intro x y hx hleads
    rcases hx with hnone | ⟨root, hroot, hpath⟩
    · obtain ⟨k, hk, -⟩ := hleads
      rw [hnone] at hk
      cases hk
    · exact .inr ⟨root, hroot, hpath.tail hleads⟩
  same _ _ := rfl

/-- every region is closed that has everything in it -/
theorem confined_everywhere (s : Store) : Confined (fun _ => True) s s where
  fresh _ _ := trivial
  stays _ hx := hx
  closed _ _ := trivial
  same _ hx := absurd trivial hx

namespace Confined

variable {R : Entity → Prop} {first : Store} {c : ScopeId}

theorem new (h : Confined R first s) {x : Entity} (hx : s.at? x = none) : R x :=
  h.fresh x (h.stays x hx)

/-- around a scope of the region there are scopes of the region -/
theorem around (h : Confined R first s) (hc : R (.scope c)) {p : ScopeId}
    (hp : p ∈ c :: (s.scope c).outer) : R (.scope p) := by
  rcases List.mem_cons.mp hp with rfl | hp
  · exact hc
  · exact h.closed hc (leads_outer hp)

/-- one thing of the region changes, or is created, and leads into the region only -/
theorem change (h : Confined R first s) {e : Entity} (he : R e) {k : Option Content}
    (hat : ∀ x, s'.at? x = if x = e then k else s.at? x) (hhas : k = none → s.at? e = none)
    (hk : ∀ k', k = some k' → ∀ y, k'.Leads y → R y) : Confined R first s' where
  fresh := h.fresh
  stays x hx := by
    rw [hat] at hx
    split at hx
    · rename_i heq
      exact h.stays x (heq ▸ hhas hx)
    · exact h.stays x hx
  closed := by
    intro x y hx hleads
    obtain ⟨k', hk', hfrom⟩ := hleads
    rw [hat] at hk'
    split at hk'
    · exact hk k' hk' y hfrom
    · exact h.closed hx ⟨k', hk', hfrom⟩
  same x hx := by
    have hne : x ≠ e := fun heq => hx (heq ▸ he)
    rw [hat, if_neg hne]
    exact h.same x hx

theorem create (h : Confined R first s) {e : Entity} {k : Content} (he : s.at? e = none)
    (hat : ∀ x, s'.at? x = if x = e then some k else s.at? x) (hk : ∀ y, k.Leads y → R y) :
    Confined R first s' := by
  refine h.change (h.new he) hat (fun hnone => (nomatch hnone)) fun k' hk' y hy => ?_
  obtain rfl := Option.some.inj hk'
  exact hk y hy

theorem modify (h : Confined R first s) {e : Entity} {k : Content} (he : R e)
    (hat : ∀ x, s'.at? x = if x = e then (s.at? e).map fun _ => k else s.at? x)
    (hk : s.at? e ≠ none → ∀ y, k.Leads y → R y) : Confined R first s' := by
  refine h.change he hat (fun hnone => Option.map_eq_none_iff.mp hnone) fun k' hk' y hy => ?_
  obtain ⟨old, hold, rfl⟩ := Option.map_eq_some_iff.mp hk'
  exact hk (fun hnone => by rw [hnone] at hold; cases hold) y hy

/-! ## slots, functions and objects -/

theorem newSlot (h : Confined R first s) {v : Value} (hv : ∀ y, (Content.slot v).Leads y → R y) :
    Confined R first (s.newSlot v).2 :=
  h.create s.at?_freshSlot (s.at?_newSlot v) hv

theorem setSlot (h : Confined R first s) {id : SlotId} (hid : R (.slot id)) {v : Value}
    (hv : ∀ y, (Content.slot v).Leads y → R y) : Confined R first (s.setSlot id v) := by
  refine h.modify hid (fun x => ?_) fun _ => hv
  rw [at?_setSlot]
  split
  · rename_i heq
    rw [heq]
  · rfl

theorem newFunction (h : Confined R first s) {f : Function}
    (hf : ∀ y, (Content.function f).Leads y → R y) : Confined R first (s.newFunction f).2 :=
  h.create s.at?_freshFunction (s.at?_newFunction f) hf

theorem newObject (h : Confined R first s) {o : Object}
    (ho : ∀ y, (Content.object o).Leads y → R y) : Confined R first (s.newObject o).2 :=
  h.create s.at?_freshObject (s.at?_newObject o) ho

theorem addField (h : Confined R first s) {o : ObjectId} (ho : R (.object o)) (n : String)
    {id : SlotId} (hid : R (.slot id)) : Confined R first (s.addField o n id) := by
  refine h.modify ho (s.at?_modifyObject o _) fun hthere y hy => ?_
  cases hy with
  | field hfield =>
    rw [NameTable.find?_insert] at hfield
    split at hfield
    · exact Option.some.inj hfield ▸ hid
    · exact h.closed ho (leads_field hfield)
  | own hown => exact h.closed ho ⟨_, at?_object (lt_of_at?_object hthere), .own hown⟩

theorem define (h : Confined R first s) {o : ObjectId} (ho : R (.object o)) (n : String) {v : Value}
    (hv : ∀ y, (Content.slot v).Leads y → R y) : Confined R first (s.define o n v).2 :=
  (h.newSlot hv).addField ho n (h.new s.at?_freshSlot)

/-! ## scopes -/

theorem newScope (h : Confined R first s) {outer : List ScopeId} (houter : ∀ p ∈ outer, R (.scope p))
    (isExplicit : Bool) (name : Option String) :
    Confined R first (s.newScope outer isExplicit name).2 := by
  have hslot : Confined R first (s.newSlot .empty).2 :=
    h.newSlot fun y hy => absurd hy (Content.not_leads_empty y)
  refine hslot.create (at?_freshScope _) (s.at?_newScope outer isExplicit name) fun y hy => ?_
  cases hy with
  | binding hbound => cases hbound
  | result => exact h.new s.at?_freshSlot
  | outer hp => exact houter _ hp
  | owner howner => cases howner

theorem newChild (h : Confined R first s) {home : ScopeId} (hhome : R (.scope home))
    (name : Option String) : Confined R first (s.newChild home name).2 :=
  h.newScope (fun _ hp => h.around hhome hp) _ name

/-- a scope of the region changes, and leads into the region only -/
theorem modifyScope (h : Confined R first s) (hc : R (.scope c)) {f : Scope → Scope}
    (hf : ∀ y, (Content.scope (f (s.scope c))).Leads y → (Content.scope (s.scope c)).Leads y ∨ R y) :
    Confined R first (s.modifyScope c f) := by
  refine h.modify hc (s.at?_modifyScope c f) fun hthere y hy => ?_
  rcases hf y hy with hold | hnew
  · exact h.closed hc ⟨_, at?_scope (lt_of_at?_scope hthere), hold⟩
  · exact hnew

theorem bind (h : Confined R first s) (hc : R (.scope c)) (n : String) {id : SlotId}
    (hid : R (.slot id)) : Confined R first (s.bind c n id) := by
  refine h.modifyScope hc fun y hy => ?_
  cases hy with
  | binding hbound =>
    rw [NameTable.find?_insert] at hbound
    split at hbound
    · exact .inr (Option.some.inj hbound ▸ hid)
    · exact .inl (.binding hbound)
  | result => exact .inl (.result (s.scope c))
  | outer hp => exact .inl (.outer hp)
  | owner ho => exact .inl (.owner ho)

theorem declare (h : Confined R first s) (hc : R (.scope c)) (n : String) {v : Value}
    (hv : ∀ y, (Content.slot v).Leads y → R y) : Confined R first (s.declare c n v).2 :=
  (h.newSlot hv).bind hc n (h.new s.at?_freshSlot)

theorem declareFunction (h : Confined R first s) (hc : R (.scope c)) (d : FunctionDecl) :
    Confined R first (s.declareFunction c d).2 := by
  have hfunction : Confined R first (s.newFunction (.script d c)).2 := by
    refine h.newFunction fun y hy => ?_
    cases hy with
    | home => exact hc
  refine hfunction.declare hc d.name fun y hy => ?_
  cases hy with
  | function => exact h.new s.at?_freshFunction

theorem declaring (hc : R (.scope c)) : Declaring (Confined R first) c where
  dim _ n h := h.declare hc n fun y hy => absurd hy (Content.not_leads_empty y)
  function _ d h := h.declareFunction hc d
  classDecl _ _ h := h.modifyScope hc fun _ hy => .inl (hy.of_scope rfl rfl rfl rfl)
  explicit _ h := h.modifyScope hc fun _ hy => .inl (hy.of_scope rfl rfl rfl rfl)

theorem hoist (h : Confined R first s) (hc : R (.scope c)) (b : Block) :
    Confined R first (b.hoist c s) :=
  hoist_induct (declaring hc) b h

/-! ## instances and activations -/

theorem newInstance (h : Confined R first s) (d : ClassDecl) {home : ScopeId}
    (hhome : R (.scope home)) : Confined R first (s.newInstance d home).2 := by
  have hown : R (.scope ⟨s.scopes.size⟩) := h.new s.at?_freshScope
  have hobject : R (.object ⟨s.objects.size⟩) := h.new s.at?_freshObject
  have hopened : Confined R first (s.opened d home) := by
    refine Confined.modifyScope (Confined.newObject (h.newChild hhome none) fun y hy => ?_) hown
      fun y hy => ?_
    · cases hy with
      | field hfield => cases hfield
      | own hscope => exact Option.some.inj hscope ▸ hown
    · cases hy with
      | binding hbound => exact .inl (.binding hbound)
      | result => exact .inl (.result _)
      | outer hp => exact .inl (.outer hp)
      | owner ho => exact .inr (Option.some.inj ho ▸ hobject)
  refine newInstance_induct (I := fun _ => Confined R first) hopened (fun _ s' n h' => ?_)
    fun _ s' method h' => ?_
  · have hbound := h'.declare hown n (v := .empty) fun y hy => absurd hy (Content.not_leads_empty y)
    exact hbound.addField hobject n (h'.new s'.at?_freshSlot)
  · exact (h'.declareFunction hown method).addField hobject method.name (h'.new s'.at?_freshSlot)

/-- a function of the region is entered; what is passed by reference belongs to the region, and what
is passed by value leads into it -/
theorem activate (h : Confined R first s) {d : FunctionDecl} {home : ScopeId}
    (hhome : R (.scope home)) {args : List SlotId} {byRef : Bool}
    (hbyRef : ∀ p arg, (p, arg) ∈ d.params.zip args → p.byRef.getD byRef = true → R (.slot arg))
    (hbyValue : ∀ p arg, (p, arg) ∈ d.params.zip args → p.byRef.getD byRef = false →
      R (.slot arg) ∨ ∀ y, first.Leads (.slot arg) y → R y) :
    Confined R first (activate byRef d home args s).2 := by
  have hscope : R (.scope ⟨s.scopes.size⟩) := h.new s.at?_freshScope
  refine activate_induct (declaring hscope) (fun s' p arg hp hpassed h' => ?_)
    (fun s' p arg hp hpassed h' => ?_) (h.newChild hhome _)
  · exact h'.bind hscope p.name (hbyRef p arg hp hpassed)
  · refine h'.declare hscope p.name fun y hy => ?_
    by_cases harg : R (.slot arg)
    · exact h'.closed harg (leads_slot hy)
    · -- the slot of the argument is outside, so it holds what it held at first
      obtain ⟨k, hk, hfrom⟩ := leads_slot hy
      rw [h'.same _ harg] at hk
      exact ((hbyValue p arg hp hpassed).resolve_left harg) y ⟨k, hk, hfrom⟩

end Confined

/-- entering a function removes nothing -/
theorem stays_activate (s : Store) (byRef : Bool) (d : FunctionDecl) (home : ScopeId)
    (args : List SlotId) : s.Stays (activate byRef d home args s).2 :=
  (s.confined_everywhere.activate trivial (fun _ _ _ _ => trivial)
    fun _ _ _ _ => .inl trivial).stays

theorem at?_activate (s : Store) (byRef : Bool) (d : FunctionDecl) (home : ScopeId)
    (args : List SlotId) : (activate byRef d home args s).2.at? (.scope ⟨s.scopes.size⟩) ≠ none := by
  let child := (s.newChild home (resultName d)).2
  have hchild : child.at? (.scope ⟨s.scopes.size⟩) ≠ none := by
    show (s.newScope _ _ _).2.at? _ ≠ none
    rw [at?_newScope, if_pos rfl]
    exact Option.some_ne_none _
  have hconfined : Confined (fun _ => True) child (activate byRef d home args s).2 :=
    activate_induct (Confined.declaring trivial)
      (fun _ p _ _ _ h => h.bind trivial p.name trivial)
      (fun _ p _ _ _ h => h.declare trivial p.name fun _ _ => trivial) child.confined_everywhere
  exact fun hnone => hchild (hconfined.stays _ hnone)

/-- in a store in order, nothing leads to a slot that is just being made -/
theorem InOrder.not_leads_newSlot (h : s.InOrder) (v : Value) (x : Entity) :
    ¬ (s.newSlot v).2.Leads x (.slot (s.newSlot v).1) := by
  rintro ⟨k, hk, hleads⟩
  rw [at?_newSlot] at hk
  split at hk
  · obtain rfl := Option.some.inj hk
    cases hleads
  · cases x with
    | scope c =>
      obtain ⟨sc, hsc, rfl⟩ := Option.map_eq_some_iff.mp hk
      have hscope : s.scope c = sc := by rw [scope, hsc]; rfl
      have hlt : c.index < s.scopes.size := (Array.getElem?_eq_some_iff.mp hsc).1
      generalize hid : (s.newSlot v).1 = id at hleads
      have hindex : id.index = s.slots.size := congrArg SlotId.index hid.symm
      cases hleads with
      | binding hbound => exact absurd (h.bound c _ id (hscope ▸ hbound)) (by omega)
      | result =>
        have hresult := (h.result c hlt).1
        rw [hscope] at hresult
        omega
    | slot id =>
      obtain ⟨w, -, rfl⟩ := Option.map_eq_some_iff.mp hk
      cases hleads
    | object o =>
      obtain ⟨obj, hobj, rfl⟩ := Option.map_eq_some_iff.mp hk
      have hobject : s.object o = obj := by rw [object, hobj]; rfl
      cases hleads with
      | field hfield =>
        have hlt := h.field o _ _ (show s.field? o _ = _ by rw [field?, hobject]; exact hfield)
        exact absurd hlt (Nat.lt_irrefl _)
    | function f =>
      obtain ⟨g, -, rfl⟩ := Option.map_eq_some_iff.mp hk
      cases hleads

end Store

end PageScript
