import PageScript.Proofs.Store.Building

/-!
# Instances and their scopes

A member of an instance is in two tables: among the members of the object, and among the bindings of
the scope of the instance.  Both tables are filled when the instance is made, slot by slot, and never
again: the scope of an instance is not a scope where code runs, so nothing is declared there, and an
instance gets no members from outside.

* `Store.Represents`    an object is an instance of a class;
* `Store.Instances`     every instance has a scope of its own, and slots of its own;
* `Store.Undisturbed`   nothing happens to instances, and none is made;
* `Store.making_newInstance`   a new instance is one of its class, and nothing else has changed.
-/

namespace PageScript

open Eval

/-! ## the names of a table -/

namespace NameTable

variable {α : Type}

theorem names_empty : (empty : NameTable α).names = [] := by simp [names, empty]

theorem mem_names {t : NameTable α} {k : String} : k ∈ t.names ↔ k ∈ t.entries.map Prod.fst :=
  List.mem_mergeSort

theorem nodup_names {t : NameTable α} : t.names.Nodup ↔ (t.entries.map Prod.fst).Nodup :=
  (List.mergeSort_perm _ _).nodup_iff

theorem mem_names_insert {t : NameTable α} {n k : String} {a : α} :
    k ∈ (t.insert n a).names ↔ k ∈ t.names ∨ k = Text.fold n := by
  simp only [mem_names, insert, List.map_cons, List.mem_cons, List.mem_map, List.mem_filter,
    bne_iff_ne]
  constructor
  · rintro (rfl | ⟨e, ⟨he, -⟩, rfl⟩)
    · exact .inr rfl
    · exact .inl ⟨e, he, rfl⟩
  · rintro (⟨e, he, rfl⟩ | rfl)
    · by_cases hn : e.1 = Text.fold n
      · exact .inl hn
      · exact .inr ⟨e, ⟨he, hn⟩, rfl⟩
    · exact .inl rfl

theorem nodup_names_insert {t : NameTable α} (h : t.names.Nodup) (n : String) (a : α) :
    (t.insert n a).names.Nodup := by
  rw [nodup_names] at h ⊢
  show (Text.fold n
    :: (t.entries.filter fun e : String × α => e.1 != Text.fold n).map Prod.fst).Nodup
  refine List.nodup_cons.mpr ⟨fun hmem => ?_, ?_⟩
  · obtain ⟨e, he, heq⟩ := List.mem_map.mp hmem
    exact bne_iff_ne.mp (List.mem_filter.mp he).2 heq
  · exact h.sublist (List.filter_sublist.map _)

theorem mem_values_insert {t : NameTable α} {n : String} {a b : α}
    (h : b ∈ (t.insert n a).values) : b ∈ t.values ∨ b = a := by
  rcases List.mem_cons.mp h with rfl | h
  · exact .inr rfl
  · obtain ⟨e, he, rfl⟩ := List.mem_map.mp h
    exact .inl (List.mem_map.mpr ⟨e, (List.mem_filter.mp he).1, rfl⟩)

end NameTable

namespace Store

variable {s s' s₁ s₂ : Store}

/-! ## the place of a scope -/

/-- where a scope is: inside which scopes, in the activation of which function, in which instance -/
def place (s : Store) (c : ScopeId) : List ScopeId × Option String × Option ObjectId :=
  ((s.scope c).outer, (s.scope c).functionName, (s.scope c).owner)

theorem place_newScope (s : Store) (outer : List ScopeId) (isExplicit : Bool)
    (name : Option String) {c : ScopeId} (hc : c.index < s.scopes.size) :
    (s.newScope outer isExplicit name).2.place c = s.place c := by
  rw [place, scope_newScope, if_neg hc.ne]
  rfl

theorem place_modifyScope (s : Store) (c x : ScopeId) {f : Scope → Scope}
    (hf : ∀ sc, (f sc).outer = sc.outer ∧ (f sc).functionName = sc.functionName ∧
      (f sc).owner = sc.owner) : (s.modifyScope c f).place x = s.place x := by
  obtain ⟨houter, hname, howner⟩ := hf (s.scope x)
  rw [place, scope_modifyScope]
  split
  · rw [houter, hname, howner]
    rfl
  · rfl

/-! ## instances -/

/-- every instance has a scope of its own, and no slot is a member of two objects -/
structure Instances (s : Store) : Prop where
  there : ∀ o own, (s.object o).scope = some own → own.index < s.scopes.size
  owner : ∀ o own, (s.object o).scope = some own → (s.scope own).owner = some o
  unnamed : ∀ o own, (s.object o).scope = some own → (s.scope own).functionName = none
  bound : ∀ o, ∀ id ∈ (s.object o).fields.values, id.index < s.slots.size
  apart : ∀ o o' id, id ∈ (s.object o).fields.values → id ∈ (s.object o').fields.values → o = o'

/-- an object is an instance of a class: its members are those of the class, by their folded names,
and its scope binds the same slots to the same names -/
structure Represents (s : Store) (o : ObjectId) (own : ScopeId) (d : ClassDecl) : Prop where
  className : (s.object o).className = d.name
  names : ∀ k, k ∈ (s.object o).fields.names ↔ k ∈ d.memberNames.map Text.fold
  once : (s.object o).fields.names.Nodup
  bindings : (s.scope own).bindings = (s.object o).fields

theorem instances_empty : empty.Instances where
  there _ _ h := nomatch h
  owner _ _ h := nomatch h
  unnamed _ _ h := nomatch h
  bound _ _ h := nomatch h
  apart _ _ _ h := nomatch h

namespace Instances

theorem newSlot (h : s.Instances) (v : Value) : (s.newSlot v).2.Instances :=
  { h with
    bound := fun o id hid => (h.bound o id hid).trans_le
      ((Nat.le_succ _).trans (Array.size_push v).ge) }

theorem fresh (h : s.Instances) (o : ObjectId) :
    (⟨s.slots.size⟩ : SlotId) ∉ (s.object o).fields.values :=
  fun hmem => Nat.lt_irrefl _ (h.bound o _ hmem)

/-- a scope changes in its place -/
theorem modifyScope (h : s.Instances) (c : ScopeId) {f : Scope → Scope}
    (hf : ∀ sc, (f sc).outer = sc.outer ∧ (f sc).functionName = sc.functionName ∧
      (f sc).owner = sc.owner) : (s.modifyScope c f).Instances := by
  have hplace := fun x => s.place_modifyScope c x hf
  have hsize : (s.modifyScope c f).scopes.size = s.scopes.size := Array.size_modify
  exact
    { h with
      there := fun o own ho => hsize ▸ h.there o own ho
      owner := fun o own ho => (congrArg (·.2.2) (hplace own)).trans (h.owner o own ho)
      unnamed := fun o own ho => (congrArg (·.2.1) (hplace own)).trans (h.unnamed o own ho) }

theorem addField (h : s.Instances) (o : ObjectId) (n : String) {id : SlotId}
    (hid : id.index < s.slots.size) (hfresh : ∀ x, id ∉ (s.object x).fields.values) :
    (s.addField o n id).Instances := by
  have howned : ∀ {x own}, ((s.addField o n id).object x).scope = some own →
      (s.object x).scope = some own := fun {x _} ho => (s.scope_addField o x n id).symm.trans ho
  -- the only object with a new member is the one that gets it
  have hmember : ∀ {x id'}, id' ∈ ((s.addField o n id).object x).fields.values →
      id' ∈ (s.object x).fields.values ∨ x = o ∧ id' = id := by
    intro x id' hmem
    rw [Store.addField, object_modifyObject] at hmem
    split at hmem
    · rename_i hx
      refine (NameTable.mem_values_insert hmem).imp_right fun heq => ⟨?_, heq⟩
      exact (congrArg ObjectId.mk hx.1).symm
    · exact .inl hmem
  refine ⟨fun x own ho => h.there x own (howned ho), fun x own ho => h.owner x own (howned ho),
    fun x own ho => h.unnamed x own (howned ho), fun x id' hmem => ?_, fun x x' id' hx hx' => ?_⟩
  · rcases hmember hmem with hold | ⟨-, rfl⟩
    · exact h.bound x id' hold
    · exact hid
  · rcases hmember hx with hold | ⟨rfl, rfl⟩
    · rcases hmember hx' with hold' | ⟨-, rfl⟩
      · exact h.apart x x' id' hold hold'
      · exact absurd hold (hfresh x)
    · rcases hmember hx' with hold' | ⟨rfl, -⟩
      · exact absurd hold' (hfresh x')
      · rfl

theorem define (h : s.Instances) (o : ObjectId) (n : String) (v : Value) :
    (s.define o n v).2.Instances :=
  (h.newSlot v).addField o n (s.lt_newSlot v) h.fresh

end Instances

/-- nothing happens to the instances of a store: scopes stay in their places, there are no new
instances, and what instances have as members and what their scopes bind stays the same -/
structure Undisturbed (s s' : Store) : Prop where
  instances : s'.Instances
  scopes : s.scopes.size ≤ s'.scopes.size
  place : ∀ c, c.index < s.scopes.size → s'.place c = s.place c
  owned : ∀ o, (s'.object o).scope = (s.object o).scope
  object : ∀ o own, (s.object o).scope = some own → s'.object o = s.object o
  bindings : ∀ o own, (s.object o).scope = some own →
    (s'.scope own).bindings = (s.scope own).bindings

namespace Undisturbed

theorem refl (h : s.Instances) : s.Undisturbed s :=
  ⟨h, le_rfl, fun _ _ => rfl, fun _ => rfl, fun _ _ _ => rfl, fun _ _ _ => rfl⟩

theorem trans (h : s.Undisturbed s₁) (h₁ : s₁.Undisturbed s₂) : s.Undisturbed s₂ where
  instances := h₁.instances
  scopes := h.scopes.trans h₁.scopes
  place c hc := (h₁.place c (hc.trans_le h.scopes)).trans (h.place c hc)
  owned o := (h₁.owned o).trans (h.owned o)
  object o own ho := (h₁.object o own ((h.owned o).trans ho)).trans (h.object o own ho)
  bindings o own ho := (h₁.bindings o own ((h.owned o).trans ho)).trans (h.bindings o own ho)

theorem owner_eq (h : s.Undisturbed s') {c : ScopeId} (hc : c.index < s.scopes.size) :
    (s'.scope c).owner = (s.scope c).owner :=
  congrArg (·.2.2) (h.place c hc)

theorem represents (h : s.Undisturbed s') {o : ObjectId} {own : ScopeId} {d : ClassDecl}
    (ho : (s.object o).scope = some own) (hd : s.Represents o own d) : s'.Represents o own d := by
  have hobject := h.object o own ho
  exact ⟨hobject ▸ hd.className, hobject ▸ hd.names, hobject ▸ hd.once,
    by rw [h.bindings o own ho, hobject, hd.bindings]⟩

/-! ## single changes -/

theorem newSlot (h : s.Instances) (v : Value) : s.Undisturbed (s.newSlot v).2 :=
  { refl h with instances := h.newSlot v }

theorem setSlot (h : s.Instances) (id : SlotId) (v : Value) : s.Undisturbed (s.setSlot id v) :=
  { refl h with
    instances := { h with
      bound := fun o id' hid => (h.bound o id' hid).trans_eq Array.size_setIfInBounds.symm } }

theorem newFunction (h : s.Instances) (f : Function) : s.Undisturbed (s.newFunction f).2 :=
  { refl h with instances := { h with } }

/-- a scope that belongs to no instance changes, in its place -/
theorem modifyScope (h : s.Instances) {c : ScopeId} (hc : (s.scope c).owner = none)
    {f : Scope → Scope} (hf : ∀ sc, (f sc).outer = sc.outer ∧
      (f sc).functionName = sc.functionName ∧ (f sc).owner = sc.owner) :
    s.Undisturbed (s.modifyScope c f) :=
  { refl h with
    instances := h.modifyScope c hf
    scopes := Array.size_modify.ge
    place := fun x _ => s.place_modifyScope c x hf
    bindings := by
      intro o own ho
      have hne : c.index ≠ own.index := by
        intro heq
        obtain rfl : c = own := congrArg ScopeId.mk heq
        rw [h.owner o c ho] at hc
        cases hc
      rw [scope_modifyScope, if_neg fun hboth => hne hboth.1] }

theorem declare (h : s.Instances) {c : ScopeId} (hc : (s.scope c).owner = none) (n : String)
    (v : Value) : s.Undisturbed (s.declare c n v).2 :=
  (newSlot h v).trans (modifyScope (newSlot h v).instances hc fun _ => ⟨rfl, rfl, rfl⟩)

theorem declareFunction (h : s.Instances) {c : ScopeId} (hc : (s.scope c).owner = none)
    (d : FunctionDecl) : s.Undisturbed (s.declareFunction c d).2 :=
  (newFunction h _).trans (declare (newFunction h _).instances hc d.name _)

theorem newScope (h : s.Instances) (outer : List ScopeId) (isExplicit : Bool)
    (name : Option String) : s.Undisturbed (s.newScope outer isExplicit name).2 := by
  have hlt := s.lt_newScope outer isExplicit name
  have hplace := fun {c : ScopeId} => s.place_newScope outer isExplicit name (c := c)
  have hsame : ∀ {c : ScopeId}, c.index < s.scopes.size →
      (s.newScope outer isExplicit name).2.scope c = s.scope c := by
    intro c hc
    rw [scope_newScope, if_neg hc.ne]
  exact
    { refl h with
      instances := { h.newSlot .empty with
        there := fun o own ho => (h.there o own ho).trans hlt
        owner := fun o own ho => by rw [hsame (h.there o own ho)]; exact h.owner o own ho
        unnamed := fun o own ho => by rw [hsame (h.there o own ho)]; exact h.unnamed o own ho }
      scopes := hlt.le
      place := fun c hc => hplace hc
      bindings := fun o own ho => by rw [hsame (h.there o own ho)] }

/-- an object without members is created, which is no instance -/
theorem newObject (h : s.Instances) (className : String) :
    s.Undisturbed (s.newObject ⟨className, .empty, none⟩).2 := by
  -- an object that is not there has no members and no scope either
  have hsame : ∀ o, ((s.newObject ⟨className, .empty, none⟩).2.object o).scope
        = (s.object o).scope ∧
      ((s.newObject ⟨className, .empty, none⟩).2.object o).fields = (s.object o).fields := by
    intro o
    rw [object_newObject]
    split
    · rename_i hnew
      rw [Store.object, Array.getElem?_eq_none hnew.ge]
      exact ⟨rfl, rfl⟩
    · exact ⟨rfl, rfl⟩
  refine ⟨⟨fun o own ho => ?_, fun o own ho => ?_, fun o own ho => ?_, fun o id hid => ?_,
    fun o o' id hid hid' => ?_⟩, le_rfl, fun _ _ => rfl, fun o => (hsame o).1, fun o own ho => ?_,
    fun _ _ _ => rfl⟩
  · exact h.there o own ((hsame o).1 ▸ ho)
  · exact h.owner o own ((hsame o).1 ▸ ho)
  · exact h.unnamed o own ((hsame o).1 ▸ ho)
  · exact h.bound o id ((hsame o).2 ▸ hid)
  · exact h.apart o o' id ((hsame o).2 ▸ hid) ((hsame o').2 ▸ hid')
  · rw [object_newObject, if_neg]
    intro hnew
    rw [object_of_size_le hnew.ge] at ho
    cases ho

theorem define (h : s.Instances) {o : ObjectId} (ho : s.isInstance o = false) (n : String)
    (v : Value) : s.Undisturbed (s.define o n v).2 :=
  { refl h with
    instances := h.define o n v
    owned := fun x => (s.newSlot v).2.scope_addField o x n _
    object := by
      intro x own hx
      have hne : o.index ≠ x.index := by
        intro heq
        obtain rfl : o = x := congrArg ObjectId.mk heq
        rw [isInstance, hx] at ho
        cases ho
      show ((s.newSlot v).2.addField o n _).object x = s.object x
      rw [addField, object_modifyObject, if_neg fun hboth => hne hboth.1]
      rfl }

/-- the object through which scripts write to the page -/
theorem newResponse (h : s.Instances) (home : ScopeId) :
    s.Undisturbed (s.newResponse home).2 := by
  have hfunction := newFunction h (.host "write" home .write)
  have hobject := newObject hfunction.instances "Response"
  have hresponse : (((s.newFunction (.host "write" home .write)).2.newObject
      ⟨"Response", .empty, none⟩).2.object ⟨s.objects.size⟩) = ⟨"Response", .empty, none⟩ :=
    (object_newObject _ _ _).trans (if_pos rfl)
  refine (hfunction.trans hobject).trans (define hobject.instances ?_ "write" _)
  exact congrArg (fun o : Object => o.scope.isSome) hresponse

/-! ## blocks and activations -/

theorem declaring {c : ScopeId} (hthere : c.index < s.scopes.size)
    (hc : (s.scope c).owner = none) : Declaring s.Undisturbed c where
  dim _ n h := h.trans (declare h.instances ((h.owner_eq hthere).trans hc) n .empty)
  function _ d h := h.trans (declareFunction h.instances ((h.owner_eq hthere).trans hc) d)
  classDecl _ _ h :=
    h.trans (modifyScope h.instances ((h.owner_eq hthere).trans hc) fun _ => ⟨rfl, rfl, rfl⟩)
  explicit _ h :=
    h.trans (modifyScope h.instances ((h.owner_eq hthere).trans hc) fun _ => ⟨rfl, rfl, rfl⟩)

theorem hoist (h : s.Instances) {c : ScopeId} (hthere : c.index < s.scopes.size)
    (hc : (s.scope c).owner = none) (b : Block) : s.Undisturbed (b.hoist c s) :=
  hoist_induct (declaring hthere hc) b (refl h)

theorem activate (h : s.Instances) (byRef : Bool) (d : FunctionDecl) (home : ScopeId)
    (args : List SlotId) :
    (s.newChild home (resultName d)).2.Undisturbed (activate byRef d home args s).2 := by
  let child := (s.newChild home (resultName d)).2
  have hthere : s.scopes.size < child.scopes.size := s.lt_newScope _ _ _
  have hc : (child.scope ⟨s.scopes.size⟩).owner = none := by
    show ((s.newScope _ _ _).2.scope _).owner = none
    rw [scope_newScope, if_pos rfl]
    rfl
  have howner : ∀ {s'}, child.Undisturbed s' → (s'.scope ⟨s.scopes.size⟩).owner = none :=
    fun h' => (h'.owner_eq hthere).trans hc
  have hbind : ∀ {s'} n id, child.Undisturbed s' →
      child.Undisturbed (s'.bind ⟨s.scopes.size⟩ n id) :=
    fun n id h' => h'.trans (modifyScope h'.instances (howner h') fun _ => ⟨rfl, rfl, rfl⟩)
  have hchild : child.Instances := (newScope h _ _ _).instances
  exact activate_induct (declaring hthere hc) (fun _ p arg _ _ h' => hbind p.name arg h')
    (fun _ p _ _ _ h' => h'.trans (declare h'.instances (howner h') p.name _)) (refl hchild)

end Undisturbed

/-! ## new instances -/

/-- a new instance on the way: it has members by some names, and everything else is as before -/
structure Making (s : Store) (d : ClassDecl) (names : List String) (s' : Store) : Prop where
  instances : s'.Instances
  place : ∀ c, c.index < s.scopes.size → s'.place c = s.place c
  scope : ∀ c, c.index < s.scopes.size → (s'.scope c).bindings = (s.scope c).bindings
  object : ∀ o, o.index ≠ s.objects.size → s'.object o = s.object o
  own : (s'.object ⟨s.objects.size⟩).scope = some ⟨s.scopes.size⟩
  className : (s'.object ⟨s.objects.size⟩).className = d.name
  names : ∀ k, k ∈ (s'.object ⟨s.objects.size⟩).fields.names ↔ k ∈ names.map Text.fold
  once : (s'.object ⟨s.objects.size⟩).fields.names.Nodup
  bindings : (s'.scope ⟨s.scopes.size⟩).bindings = (s'.object ⟨s.objects.size⟩).fields

namespace Making

variable {d : ClassDecl} {names : List String}

theorem newFunction (h : s.Making d names s') (f : Function) :
    s.Making d names (s'.newFunction f).2 :=
  { h with instances := (Undisturbed.newFunction h.instances f).instances }

/-- a slot is bound in the scope and made a member of the object, by one name -/
theorem addMember (h : s.Making d names s') (n : String) (v : Value) :
    s.Making d (names ++ [n]) (s'.addMember ⟨s.objects.size⟩ ⟨s.scopes.size⟩ n v) := by
  let o : ObjectId := ⟨s.objects.size⟩
  let own : ScopeId := ⟨s.scopes.size⟩
  let id : SlotId := ⟨s'.slots.size⟩
  have hown : own.index < s'.scopes.size := h.instances.there o own h.own
  have ho : o.index < s'.objects.size := by
    by_contra hlt
    have hnone := object_of_size_le (s := s') (not_lt.mp hlt)
    rw [h.own] at hnone
    cases hnone
  -- the scope and the object each get one entry, and nothing else changes
  have hscope : ∀ c, (s'.addMember o own n v).scope c
      = if own.index = c.index ∧ c.index < s'.scopes.size
        then { s'.scope c with bindings := (s'.scope c).bindings.insert n id } else s'.scope c :=
    fun c => scope_modifyScope (s'.newSlot v).2 own _ c
  have hobject : ∀ x, (s'.addMember o own n v).object x
      = if o.index = x.index ∧ x.index < s'.objects.size
        then { s'.object x with fields := (s'.object x).fields.insert n id } else s'.object x :=
    fun x => object_modifyObject (s'.declare own n v).2 o _ x
  have hplace : ∀ c, (s'.addMember o own n v).place c = s'.place c :=
    fun c => (s'.newSlot v).2.place_modifyScope own c fun _ => ⟨rfl, rfl, rfl⟩
  have hnew := (hobject o).trans (if_pos ⟨rfl, ho⟩)
  refine
    { instances := ?_, place := fun c hc => (hplace c).trans (h.place c hc), scope := ?_,
      object := ?_, own := ?_, className := ?_, names := ?_, once := ?_, bindings := ?_ }
  · have hslot : (s'.declare own n v).2.Instances :=
      (h.instances.newSlot v).modifyScope own fun _ => ⟨rfl, rfl, rfl⟩
    exact hslot.addField o n (s'.lt_newSlot v) h.instances.fresh
  · intro c hc
    rw [hscope, if_neg fun hboth => hc.ne hboth.1.symm]
    exact h.scope c hc
  · intro x hx
    rw [hobject, if_neg fun hboth => hx hboth.1.symm]
    exact h.object x hx
  · rw [hnew]
    exact h.own
  · rw [hnew]
    exact h.className
  · intro k
    rw [hnew, NameTable.mem_names_insert, h.names k, List.map_append, List.mem_append]
    exact or_congr_right List.mem_singleton.symm
  · rw [hnew]
    exact NameTable.nodup_names_insert h.once n id
  · rw [hnew, hscope, if_pos ⟨rfl, hown⟩, h.bindings]

end Making

/-- the scope and the object of a new instance, before its members -/
theorem making_opened (h : s.Instances) (d : ClassDecl) (home : ScopeId) :
    s.Making d [] (s.opened d home) := by
  let o : ObjectId := ⟨s.objects.size⟩
  let own : ScopeId := ⟨s.scopes.size⟩
  have hthere : own.index < (s.newChild home none).2.scopes.size := s.lt_newScope _ _ _
  have hsize : (s.opened d home).scopes.size = (s.newChild home none).2.scopes.size :=
    Array.size_modify
  have hscope : ∀ c, c.index ≠ s.scopes.size → (s.opened d home).scope c = s.scope c := by
    intro c hc
    rw [opened, scope_modifyScope, if_neg fun hboth => hc hboth.1.symm]
    exact (s.scope_newScope _ _ _ c).trans (if_neg hc)
  have hown : (s.opened d home).scope own = { s.freshScope (home :: (s.scope home).outer)
      (s.scope home).isExplicit none with owner := some o } := by
    rw [opened, scope_modifyScope, if_pos ⟨rfl, hthere⟩]
    exact congrArg (fun sc : Scope => { sc with owner := some o })
      ((s.scope_newScope _ _ _ own).trans (if_pos rfl))
  have hobject : ∀ x, (s.opened d home).object x
      = if x.index = s.objects.size then ⟨d.name, .empty, some own⟩ else s.object x :=
    (s.newChild home none).2.object_newObject _
  have hnew : (s.opened d home).object o = ⟨d.name, .empty, some own⟩ :=
    (hobject o).trans (if_pos rfl)
  -- an instance of the store is the new one, or was there before
  have howned : ∀ {x c}, ((s.opened d home).object x).scope = some c →
      x = o ∧ c = own ∨ (s.object x).scope = some c := by
    intro x c hx
    rw [hobject] at hx
    split at hx
    · rename_i hindex
      exact .inl ⟨congrArg ObjectId.mk hindex, (Option.some.inj hx).symm⟩
    · exact .inr hx
  have hmember : ∀ {x id}, id ∈ ((s.opened d home).object x).fields.values →
      id ∈ (s.object x).fields.values := by
    intro x id hid
    rw [hobject] at hid
    split at hid
    · cases hid
    · exact hid
  have hinstances : (s.opened d home).Instances := by
    refine ⟨fun x c hx => ?_, fun x c hx => ?_, fun x c hx => ?_, fun x id hid => ?_,
      fun x x' id hid hid' => h.apart x x' id (hmember hid) (hmember hid')⟩
    · rcases howned hx with ⟨-, rfl⟩ | hold
      · exact hsize ▸ hthere
      · exact hsize ▸ (h.there x c hold).trans hthere
    · rcases howned hx with ⟨rfl, rfl⟩ | hold
      · rw [hown]
      · rw [hscope c (h.there x c hold).ne]
        exact h.owner x c hold
    · rcases howned hx with ⟨-, rfl⟩ | hold
      · rw [hown]
        rfl
      · rw [hscope c (h.there x c hold).ne]
        exact h.unnamed x c hold
    · exact (h.newSlot .empty).bound x id (hmember hid)
  refine
    { instances := hinstances, place := fun c hc => ?_, scope := fun c hc => ?_,
      object := fun x hx => (hobject x).trans (if_neg hx), own := by rw [hnew],
      className := by rw [hnew], names := fun k => ?_, once := ?_, bindings := ?_ }
  · rw [place, hscope c hc.ne]
    rfl
  · rw [hscope c hc.ne]
  · rw [hnew, NameTable.names_empty, List.map_nil]
  · rw [hnew, NameTable.names_empty]
    exact List.nodup_nil
  · rw [hown, hnew]
    rfl

/-- a new instance is one of its class, and nothing else has changed -/
theorem making_newInstance (h : s.Instances) (d : ClassDecl) (home : ScopeId) :
    s.Making d d.memberNames (s.newInstance d home).2 :=
  newInstance_induct (I := s.Making d) (s.making_opened h d home)
    (fun _ _ n h' => h'.addMember n .empty)
    fun _ _ method h' => (h'.newFunction _).addMember method.name _

end Store

end PageScript
