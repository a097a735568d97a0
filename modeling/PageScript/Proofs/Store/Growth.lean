import Mathlib.Logic.Relation
import PageScript.Proofs.Program.Declared
import PageScript.Proofs.Store.Nested

/-!
# How stores grow

Nothing is ever removed from a store, and little of what is there ever changes: scopes stay inside
the scopes around them, functions stay what they are, instances keep their scopes, and a slot that
is there does not come to hold a function.  This is `Store.Grows`.

A new scope is furnished one thing after the other (`Store.Furnish`): with the declarations of a
block, with parameters, or with the members of an instance.  Declarations, activations and instances
are spelled out in these terms once, so that what furnishing keeps is kept by all of them.

* `Store.Grows`                          what is there stays;
* `Store.InOrder`                        names lead to slots that are there, and results are built
                                         up in slots without functions;
* `Store.furnishes_hoist`, `Store.furnishes_bindParams`, `Store.furnishes_members`.
-/

namespace PageScript

open Eval

/-- the value is no function -/
def Value.NoFunction (v : Value) : Prop := ∀ f, v ≠ .function f

theorem Value.noFunction_empty : Value.NoFunction .empty := fun _ h => nomatch h

theorem Value.noFunction_of_isReference {v : Value} (h : v.isReference = false) : v.NoFunction := by
  rintro f rfl
  cases h

namespace Store

variable {s s' s₁ s₂ : Store}

/-! ## reading after a change -/

theorem slot_newSlot (s : Store) (v : Value) (id : SlotId) :
    (s.newSlot v).2.slot id = if id.index = s.slots.size then v else s.slot id :=
  getD_push s.slots v id.index

theorem slot_newSlot_of_lt {v : Value} {other : SlotId} (h : other.index < s.slots.size) :
    (s.newSlot v).2.slot other = s.slot other := by
  rw [slot_newSlot, if_neg h.ne]

theorem lt_newSlot (s : Store) (v : Value) : (s.newSlot v).1.index < (s.newSlot v).2.slots.size :=
  (Nat.lt_succ_self _).trans_eq (Array.size_push v).symm

theorem lt_newSlot_of_lt {v : Value} {other : SlotId} (h : other.index < s.slots.size) :
    other.index < (s.newSlot v).2.slots.size :=
  h.trans (lt_newSlot s v)

theorem slot_setSlot (s : Store) (id : SlotId) (v : Value) (other : SlotId) :
    (s.setSlot id v).slot other
      = if id.index = other.index ∧ other.index < s.slots.size then v else s.slot other := by
  unfold setSlot slot
  rw [Array.getElem?_setIfInBounds]
  by_cases hid : id.index = other.index
  · by_cases hlt : other.index < s.slots.size
    · simp [hid, hlt]
    · simp [hid, hlt]
  · simp [hid]

theorem slot_setSlot_of_ne {v : Value} {id other : SlotId} (h : other ≠ id) :
    (s.setSlot id v).slot other = s.slot other := by
  rw [slot_setSlot, if_neg]
  rintro ⟨heq, -⟩
  exact h (congrArg SlotId.mk heq.symm)

/-- a name stands for what it stood for, or for the slot that was bound to it -/
theorem find?_bind {c x : ScopeId} {n m : String} {id id' : SlotId}
    (h : ((s.bind c n id).scope x).bindings.find? m = some id') :
    (s.scope x).bindings.find? m = some id' ∨ x = c ∧ id' = id := by
  rw [bind, scope_modifyScope] at h
  split at h
  · rename_i hx
    rw [NameTable.find?_insert] at h
    split at h
    · exact .inr ⟨(congrArg ScopeId.mk hx.1).symm, (Option.some.inj h).symm⟩
    · exact .inl h
  · exact .inl h

/-- a member of an object is one that it had, or the slot that was made one -/
theorem field?_addField {o x : ObjectId} {n m : String} {id id' : SlotId}
    (h : (s.addField o n id).field? x m = some id') :
    s.field? x m = some id' ∨ x = o ∧ id' = id := by
  rw [field?, addField, object_modifyObject] at h
  split at h
  · rename_i hx
    rw [NameTable.find?_insert] at h
    split at h
    · exact .inr ⟨(congrArg ObjectId.mk hx.1).symm, (Option.some.inj h).symm⟩
    · exact .inl h
  · exact .inl h

theorem scope_addField (s : Store) (o x : ObjectId) (n : String) (id : SlotId) :
    ((s.addField o n id).object x).scope = (s.object x).scope := by
  rw [addField, object_modifyObject, apply_ite Object.scope, ite_self]

/-- a name stands for a slot that is bound to it, or for the result of the function around -/
theorem slot_of_findHere {held : List Ref} {use : Use} {n : String} {c : ScopeId}
    {id : SlotId} (h : s.findHere held use n c = some (.slot id)) :
    (s.scope c).bindings.find? n = some id ∨
      c.index < s.scopes.size ∧ id = (s.scope c).result := by
  cases hbound : (s.scope c).bindings.find? n with
  | some slot =>
    simp only [findHere, hbound] at h
    exact .inl (congrArg some (Found.slot.inj (Option.some.inj h)))
  | none =>
    simp only [findHere, hbound] at h
    split at h
    · rename_i hname
      refine .inr ⟨?_, (Found.slot.inj (Option.some.inj h)).symm⟩
      -- only scopes that are there are activations of functions
      by_contra hlt
      rw [scope, Array.getElem?_eq_none (not_lt.mp hlt)] at hname
      cases hname.2
    · split at h
      · obtain ⟨o, -, ho⟩ := Option.map_eq_some_iff.mp h
        cases ho
      · cases h

/-- the instance that a name stands for is the one whose scope it is, and it is alive -/
theorem owner_of_findHere {held : List Ref} {use : Use} {n : String} {c : ScopeId} {o : ObjectId}
    (h : s.findHere held use n c = some (.owner o)) :
    (s.scope c).owner = some o ∧ s.alive held (.object o) = true := by
  cases hbound : (s.scope c).bindings.find? n with
  | some slot => simp [findHere, hbound] at h
  | none =>
    simp only [findHere, hbound] at h
    split at h
    · cases h
    · split at h
      · obtain ⟨o', ho', heq⟩ := Option.map_eq_some_iff.mp h
        obtain rfl := Found.owner.inj heq
        exact Option.filter_eq_some_iff.mp ho'
      · cases h

theorem object_of_size_le {o : ObjectId} (h : s.objects.size ≤ o.index) :
    (s.object o).scope = none := by
  rw [object, Array.getElem?_eq_none h]
  rfl

theorem lt_of_classes {c : ScopeId} {n : String} {d : ClassDecl}
    (h : (s.scope c).classes.find? n = some d) : c.index < s.scopes.size := by
  by_contra hlt
  rw [scope, Array.getElem?_eq_none (not_lt.mp hlt)] at h
  cases h

theorem lt_of_bindings {c : ScopeId} {n : String} {id : SlotId}
    (h : (s.scope c).bindings.find? n = some id) : c.index < s.scopes.size := by
  by_contra hlt
  rw [scope, Array.getElem?_eq_none (not_lt.mp hlt)] at h
  cases h

/-! ## what is there stays -/

/-- the slot is there and holds no function -/
def Plain (s : Store) (id : SlotId) : Prop :=
  id.index < s.slots.size ∧ (s.slot id).NoFunction

theorem plain_newSlot (s : Store) {v : Value} (hv : v.NoFunction) :
    (s.newSlot v).2.Plain (s.newSlot v).1 := by
  refine ⟨s.lt_newSlot v, ?_⟩
  have hslot : (s.newSlot v).2.slot (s.newSlot v).1 = v := (s.slot_newSlot v _).trans (if_pos rfl)
  rwa [hslot]

/-- a store and a later one -/
structure Grows (s s' : Store) : Prop where
  scopes : s.scopes.size ≤ s'.scopes.size
  slots : s.slots.size ≤ s'.slots.size
  functions : s.functions.size ≤ s'.functions.size
  outer : ∀ c, c.index < s.scopes.size → (s'.scope c).outer = (s.scope c).outer
  function : ∀ f, f.index < s.functions.size → s'.function f = s.function f
  owned : ∀ o c, (s.object o).scope = some c → (s'.object o).scope = some c
  gained : ∀ id f, id.index < s.slots.size → s'.slot id = .function f → s.slot id = .function f

namespace Grows

theorem refl (s : Store) : s.Grows s :=
  ⟨le_rfl, le_rfl, le_rfl, fun _ _ => rfl, fun _ _ => rfl, fun _ _ h => h, fun _ _ _ h => h⟩

theorem trans (h : s.Grows s₁) (h₁ : s₁.Grows s₂) : s.Grows s₂ where
  scopes := h.scopes.trans h₁.scopes
  slots := h.slots.trans h₁.slots
  functions := h.functions.trans h₁.functions
  outer c hc := (h₁.outer c (hc.trans_le h.scopes)).trans (h.outer c hc)
  function f hf := (h₁.function f (hf.trans_le h.functions)).trans (h.function f hf)
  owned o c hc := h₁.owned o c (h.owned o c hc)
  gained id f hid hf := h.gained id f hid (h₁.gained id f (hid.trans_le h.slots) hf)

theorem plain (h : s.Grows s') {id : SlotId} (hid : s.Plain id) : s'.Plain id :=
  ⟨hid.1.trans_le h.slots, fun f hf => hid.2 f (h.gained id f hid.1 hf)⟩

end Grows

theorem grows_newSlot (s : Store) (v : Value) : s.Grows (s.newSlot v).2 :=
  { Grows.refl s with
    slots := (Nat.le_succ _).trans (Array.size_push v).ge
    gained := by
      intro id f hid hf
      rwa [slot_newSlot, if_neg hid.ne] at hf }

theorem grows_setSlot (s : Store) (id : SlotId) {v : Value} (hv : v.NoFunction) :
    s.Grows (s.setSlot id v) :=
  { Grows.refl s with
    slots := (Array.size_setIfInBounds).ge
    gained := by
      intro other f _ hf
      rw [slot_setSlot] at hf
      split at hf
      · exact absurd hf (hv f)
      · exact hf }

theorem grows_newFunction (s : Store) (f : Function) : s.Grows (s.newFunction f).2 :=
  { Grows.refl s with
    functions := (Nat.le_succ _).trans (Array.size_push f).ge
    function := by
      intro g hg
      rw [function_newFunction, if_neg hg.ne] }

theorem grows_newObject (s : Store) (o : Object) : s.Grows (s.newObject o).2 :=
  { Grows.refl s with
    owned := by
      intro x c hc
      have hx : x.index ≠ s.objects.size := by
        intro h
        rw [object_of_size_le h.ge] at hc
        cases hc
      rwa [object_newObject, if_neg hx] }

theorem grows_addField (s : Store) (o : ObjectId) (n : String) (id : SlotId) :
    s.Grows (s.addField o n id) :=
  { Grows.refl s with owned := fun x _ hc => (s.scope_addField o x n id).trans hc }

theorem grows_modifyScope (s : Store) (c : ScopeId) {f : Scope → Scope}
    (hf : ∀ sc, (f sc).outer = sc.outer) : s.Grows (s.modifyScope c f) :=
  { Grows.refl s with
    scopes := (Array.size_modify).ge
    outer := fun x _ => s.outer_modifyScope c hf x }

theorem grows_bind (s : Store) (c : ScopeId) (n : String) (id : SlotId) :
    s.Grows (s.bind c n id) :=
  s.grows_modifyScope c fun _ => rfl

theorem grows_declare (s : Store) (c : ScopeId) (n : String) (v : Value) :
    s.Grows (s.declare c n v).2 :=
  (s.grows_newSlot v).trans (grows_bind _ c n _)

theorem grows_newScope (s : Store) (outer : List ScopeId) (isExplicit : Bool)
    (name : Option String) : s.Grows (s.newScope outer isExplicit name).2 :=
  { s.grows_newSlot .empty with
    scopes := (Nat.le_succ _).trans (Array.size_push _).ge
    outer := fun c hc => by rw [outer_newScope, if_neg hc.ne] }

theorem lt_newScope (s : Store) (outer : List ScopeId) (isExplicit : Bool) (name : Option String) :
    s.scopes.size < (s.newScope outer isExplicit name).2.scopes.size :=
  (Nat.lt_succ_self _).trans_eq (Array.size_push _).symm

theorem classes_newScope (s : Store) (outer : List ScopeId) (isExplicit : Bool)
    (name : Option String) {x : ScopeId} {n : String} {d : ClassDecl}
    (h : ((s.newScope outer isExplicit name).2.scope x).classes.find? n = some d) :
    (s.scope x).classes.find? n = some d := by
  rw [scope_newScope] at h
  split at h
  · cases h
  · exact h

/-! ## stores in order -/

/-- names lead to slots that are there, and results are built up in slots without functions -/
structure InOrder (s : Store) : Prop where
  bound : ∀ c n id, (s.scope c).bindings.find? n = some id → id.index < s.slots.size
  field : ∀ o n id, s.field? o n = some id → id.index < s.slots.size
  result : ∀ c, c.index < s.scopes.size → s.Plain (s.scope c).result

namespace InOrder

/-- a later store is in order if what it has come to have is -/
theorem of_grows (h : s.InOrder) (hgrows : s.Grows s')
    (hbound : ∀ c n id, (s'.scope c).bindings.find? n = some id →
      (s.scope c).bindings.find? n = some id ∨ id.index < s'.slots.size)
    (hfield : ∀ o n id, s'.field? o n = some id →
      s.field? o n = some id ∨ id.index < s'.slots.size)
    (hresult : ∀ c, c.index < s'.scopes.size →
      c.index < s.scopes.size ∧ (s'.scope c).result = (s.scope c).result ∨
        s'.Plain (s'.scope c).result) : s'.InOrder where
  bound c n id hid := by
    rcases hbound c n id hid with hold | hnew
    · exact (h.bound c n id hold).trans_le hgrows.slots
    · exact hnew
  field o n id hid := by
    rcases hfield o n id hid with hold | hnew
    · exact (h.field o n id hold).trans_le hgrows.slots
    · exact hnew
  result c hc := by
    rcases hresult c hc with ⟨hlt, hsame⟩ | hplain
    · exact hsame ▸ hgrows.plain (h.result c hlt)
    · exact hplain

theorem newSlot (h : s.InOrder) (v : Value) : (s.newSlot v).2.InOrder :=
  h.of_grows (s.grows_newSlot v) (fun _ _ _ hid => .inl hid) (fun _ _ _ hid => .inl hid)
    fun _ hc => .inl ⟨hc, rfl⟩

theorem setSlot (h : s.InOrder) (id : SlotId) {v : Value} (hv : v.NoFunction) :
    (s.setSlot id v).InOrder :=
  h.of_grows (s.grows_setSlot id hv) (fun _ _ _ hid => .inl hid) (fun _ _ _ hid => .inl hid)
    fun _ hc => .inl ⟨hc, rfl⟩

theorem newFunction (h : s.InOrder) (f : Function) : (s.newFunction f).2.InOrder :=
  h.of_grows (s.grows_newFunction f) (fun _ _ _ hid => .inl hid) (fun _ _ _ hid => .inl hid)
    fun _ hc => .inl ⟨hc, rfl⟩

theorem newObject (h : s.InOrder) (className : String) (scope : Option ScopeId) :
    (s.newObject ⟨className, .empty, scope⟩).2.InOrder := by
  refine h.of_grows (s.grows_newObject _) (fun _ _ _ hid => .inl hid) (fun o n id hid => .inl ?_)
    fun _ hc => .inl ⟨hc, rfl⟩
  rw [field?, object_newObject] at hid
  split at hid
  · cases hid
  · exact hid

theorem addField (h : s.InOrder) (o : ObjectId) (n : String) {id : SlotId}
    (hid : id.index < s.slots.size) : (s.addField o n id).InOrder := by
  refine h.of_grows (s.grows_addField o n id) (fun _ _ _ hid => .inl hid) (fun x m id' hfound => ?_)
    fun _ hc => .inl ⟨hc, rfl⟩
  rcases field?_addField hfound with hfound | ⟨-, rfl⟩
  · exact .inl hfound
  · exact .inr hid

theorem modifyScope (h : s.InOrder) (c : ScopeId) {f : Scope → Scope}
    (hf : ∀ sc, (f sc).outer = sc.outer ∧ (f sc).bindings = sc.bindings ∧
      (f sc).result = sc.result) : (s.modifyScope c f).InOrder := by
  refine h.of_grows (s.grows_modifyScope c fun sc => (hf sc).1) (fun x n id hid => .inl ?_)
    (fun _ _ _ hid => .inl hid) fun x hx => .inl ⟨?_, ?_⟩
  · rwa [scope_modifyScope, apply_ite Scope.bindings, (hf _).2.1, ite_self] at hid
  · rwa [Store.modifyScope, Array.size_modify] at hx
  · rw [scope_modifyScope, apply_ite Scope.result, (hf _).2.2, ite_self]

theorem bind (h : s.InOrder) (c : ScopeId) (n : String) {id : SlotId}
    (hid : id.index < s.slots.size) : (s.bind c n id).InOrder := by
  refine h.of_grows (s.grows_bind c n id) (fun x m id' hfound => ?_) (fun _ _ _ hid => .inl hid)
    fun x hx => .inl ⟨?_, ?_⟩
  · rcases find?_bind hfound with hfound | ⟨-, rfl⟩
    · exact .inl hfound
    · exact .inr hid
  · rwa [Store.bind, Store.modifyScope, Array.size_modify] at hx
  · rw [Store.bind, scope_modifyScope, apply_ite Scope.result, ite_self]

theorem declare (h : s.InOrder) (c : ScopeId) (n : String) (v : Value) :
    (s.declare c n v).2.InOrder :=
  (h.newSlot v).bind c n (s.lt_newSlot v)

theorem newScope (h : s.InOrder) (outer : List ScopeId) (isExplicit : Bool)
    (name : Option String) : (s.newScope outer isExplicit name).2.InOrder := by
  refine h.of_grows (s.grows_newScope outer isExplicit name) (fun c n id hid => .inl ?_)
    (fun _ _ _ hid => .inl hid) fun c hc => ?_
  · rw [scope_newScope] at hid
    split at hid
    · cases hid
    · exact hid
  · rw [scope_newScope]
    split
    · -- the new slot for the result
      exact .inr (s.plain_newSlot Value.noFunction_empty)
    · rename_i hne
      have hc : c.index < s.scopes.size + 1 := hc.trans_eq (Array.size_push _)
      exact .inl ⟨by omega, rfl⟩

end InOrder

theorem inOrder_empty : empty.InOrder :=
  ⟨fun _ _ _ h => (nomatch h), fun _ _ _ h => (nomatch h),
    fun _ hc => absurd hc (Nat.not_lt_zero _)⟩

/-- every routine of the host is as `P` says -/
def Offers (P : Routine → Prop) (s : Store) : Prop :=
  ∀ f n home r, s.function f = .host n home r → P r

/-! ## furnishing a scope -/

/-- a scope gets a declaration, a parameter or a member of its instance; functions are as `F` says,
and classes as `C` does -/
inductive Furnish (F : FunctionDecl → Prop) (C : ClassDecl → Prop) (c : ScopeId) (s : Store) :
    Store → Prop
  | dim (n : String) : Furnish F C c s (s.declare c n .empty).2
  | function {d : FunctionDecl} : F d → Furnish F C c s (s.declareFunction c d).2
  | classDecl {d : ClassDecl} : C d → Furnish F C c s (s.declareClass c d)
  | explicit : Furnish F C c s (s.setExplicit c true)
  | byRef (n : String) {arg : SlotId} : s.Plain arg → Furnish F C c s (s.bind c n arg)
  | byValue (n : String) {arg : SlotId} : s.Plain arg →
    Furnish F C c s (s.declare c n (s.slot arg)).2
  | field (n : String) {o : ObjectId} : (s.object o).scope = some c →
    Furnish F C c s (s.addMember o c n .empty)
  | method {d : FunctionDecl} {o : ObjectId} : F d → (s.object o).scope = some c →
    Furnish F C c s (s.addMethod o c d)

abbrev Furnishes (F : FunctionDecl → Prop) (C : ClassDecl → Prop) (c : ScopeId) :
    Store → Store → Prop :=
  Relation.ReflTransGen (Furnish F C c)

/-- a scope is furnished, with functions and classes of any kind -/
abbrev Equips (c : ScopeId) : Store → Store → Prop := Furnishes (fun _ => True) (fun _ => True) c

section

variable {F : FunctionDecl → Prop} {C : ClassDecl → Prop} {c : ScopeId}

theorem Furnish.grows (h : s.Furnish F C c s') : s.Grows s' := by
  cases h with
  | dim n => exact s.grows_declare c n .empty
  | function _ => exact (s.grows_newFunction _).trans (grows_declare _ c _ _)
  | classDecl _ => exact s.grows_modifyScope c fun _ => rfl
  | explicit => exact s.grows_modifyScope c fun _ => rfl
  | byRef n _ => exact s.grows_bind c n _
  | byValue n _ => exact s.grows_declare c n _
  | field n _ => exact (s.grows_declare c n .empty).trans (grows_addField _ _ n _)
  | method _ _ =>
    exact ((s.grows_newFunction _).trans (grows_declare _ c _ _)).trans (grows_addField _ _ _ _)

theorem Furnishes.grows (h : s.Furnishes F C c s') : s.Grows s' := by
  induction h with
  | refl => exact .refl s
  | tail _ hstep ih => exact ih.trans hstep.grows

theorem Furnish.inOrder (h : s.Furnish F C c s') (hs : s.InOrder) : s'.InOrder := by
  cases h with
  | dim n => exact hs.declare c n .empty
  | function _ => exact (hs.newFunction _).declare c _ _
  | classDecl _ => exact hs.modifyScope c fun _ => ⟨rfl, rfl, rfl⟩
  | explicit => exact hs.modifyScope c fun _ => ⟨rfl, rfl, rfl⟩
  | byRef n harg => exact hs.bind c n harg.1
  | byValue n _ => exact hs.declare c n _
  | field n _ => exact (hs.declare c n .empty).addField _ n (s.lt_newSlot _)
  | method _ _ =>
    exact ((hs.newFunction _).declare c _ _).addField _ _ ((s.newFunction _).2.lt_newSlot _)

theorem Furnishes.inOrder (h : s.Furnishes F C c s') (hs : s.InOrder) : s'.InOrder := by
  induction h with
  | refl => exact hs
  | tail _ hstep ih => exact hstep.inOrder ih

/-- what furnishing a scope adds to a store, other than slots and bindings -/
structure Furnished (F : FunctionDecl → Prop) (C : ClassDecl → Prop) (c : ScopeId) (s s' : Store) :
    Prop where
  scopes : s'.scopes.size = s.scopes.size
  owned : ∀ o, (s'.object o).scope = (s.object o).scope
  function : ∀ f d home, s'.function f = .script d home → s.function f = .script d home ∨ F d
  host : ∀ f n home r, s'.function f = .host n home r → s.function f = .host n home r
  classes : ∀ x n d, (s'.scope x).classes.find? n = some d →
    (s.scope x).classes.find? n = some d ∨ x = c ∧ C d
  isExplicit : ∀ x, (s.scope x).isExplicit = true → (s'.scope x).isExplicit = true

namespace Furnished

theorem refl (s : Store) : s.Furnished F C c s :=
  ⟨rfl, fun _ => rfl, fun _ _ _ h => .inl h, fun _ _ _ _ h => h, fun _ _ _ h => .inl h,
    fun _ h => h⟩

theorem trans (h : s.Furnished F C c s₁) (h₁ : s₁.Furnished F C c s₂) : s.Furnished F C c s₂ where
  scopes := h₁.scopes.trans h.scopes
  owned o := (h₁.owned o).trans (h.owned o)
  function f d home hf := (h₁.function f d home hf).elim (h.function f d home) .inr
  host f n home r hf := h.host f n home r (h₁.host f n home r hf)
  classes x n d hd := (h₁.classes x n d hd).elim (h.classes x n d) .inr
  isExplicit x hx := h₁.isExplicit x (h.isExplicit x hx)

theorem newFunction (s : Store) {d : FunctionDecl} (hd : F d) :
    s.Furnished F C c (s.newFunction (.script d c)).2 :=
  { (refl s : s.Furnished F C c s) with
    function := by
      intro f d' home hf
      rw [function_newFunction] at hf
      split at hf
      · exact .inr ((Function.script.inj hf).1 ▸ hd)
      · exact .inl hf
    host := by
      intro f n home r hf
      rw [function_newFunction] at hf
      split at hf
      · cases hf
      · exact hf }

theorem bind (s : Store) (n : String) (id : SlotId) : s.Furnished F C c (s.bind c n id) :=
  { (refl s : s.Furnished F C c s) with
    scopes := Array.size_modify
    classes := by
      intro x m d hd
      rw [Store.bind, scope_modifyScope, apply_ite Scope.classes, ite_self] at hd
      exact .inl hd
    isExplicit := by
      intro x hx
      rwa [Store.bind, scope_modifyScope, apply_ite Scope.isExplicit, ite_self] }

theorem declare (s : Store) (n : String) (v : Value) : s.Furnished F C c (s.declare c n v).2 := by
  have hslot : s.Furnished F C c (s.newSlot v).2 := { (refl s : s.Furnished F C c s) with }
  exact hslot.trans (bind _ n _)

theorem declareFunction (s : Store) {d : FunctionDecl} (hd : F d) :
    s.Furnished F C c (s.declareFunction c d).2 :=
  (newFunction s hd).trans (declare _ d.name _)

theorem addField (s : Store) (o : ObjectId) (n : String) (id : SlotId) :
    s.Furnished F C c (s.addField o n id) :=
  { (refl s : s.Furnished F C c s) with owned := fun x => s.scope_addField o x n id }

theorem declareClass (s : Store) {d : ClassDecl} (hd : C d) :
    s.Furnished F C c (s.declareClass c d) :=
  { (refl s : s.Furnished F C c s) with
    scopes := Array.size_modify
    classes := by
      intro x n d' hd'
      rw [Store.declareClass, scope_modifyScope] at hd'
      split at hd'
      · rename_i hx
        rw [NameTable.find?_insert] at hd'
        split at hd'
        · exact .inr ⟨(congrArg ScopeId.mk hx.1).symm, Option.some.inj hd' ▸ hd⟩
        · exact .inl hd'
      · exact .inl hd'
    isExplicit := by
      intro x hx
      rwa [Store.declareClass, scope_modifyScope, apply_ite Scope.isExplicit, ite_self] }

theorem setExplicit (s : Store) : s.Furnished F C c (s.setExplicit c true) :=
  { (refl s : s.Furnished F C c s) with
    scopes := Array.size_modify
    classes := by
      intro x n d hd
      rw [Store.setExplicit, scope_modifyScope, apply_ite Scope.classes, ite_self] at hd
      exact .inl hd
    isExplicit := by
      intro x hx
      rw [Store.setExplicit, scope_modifyScope, apply_ite Scope.isExplicit, hx, ite_self] }

/-- what the host offers stays the same -/
theorem offers {P : Routine → Prop} (h : s.Furnished F C c s') (hs : s.Offers P) : s'.Offers P :=
  fun f n home r hf => hs f n home r (h.host f n home r hf)

end Furnished

theorem Furnish.furnished (h : s.Furnish F C c s') : s.Furnished F C c s' := by
  cases h with
  | dim n => exact .declare s n .empty
  | function hd => exact .declareFunction s hd
  | classDecl hd => exact .declareClass s hd
  | explicit => exact .setExplicit s
  | byRef n _ => exact .bind s n _
  | byValue n _ => exact .declare s n _
  | field n _ => exact (Furnished.declare s n .empty).trans (.addField _ _ n _)
  | method hd _ => exact (Furnished.declareFunction s hd).trans (.addField _ _ _ _)

theorem Furnishes.furnished (h : s.Furnishes F C c s') : s.Furnished F C c s' := by
  induction h with
  | refl => exact .refl s
  | tail _ hstep ih => exact ih.trans hstep.furnished

/-! ## declarations, parameters and members -/

mutual
theorem furnishes_hoistStmt : ∀ (stmt : Stmt) (s : Store),
    (∀ d ∈ stmt.declared Stmt.ownFunction, F d) → (∀ d ∈ stmt.declared Stmt.ownClass, C d) →
    s.Furnishes F C c (stmt.hoist c s)
  | .dim d, s, _, _ => by
    show s.Furnishes F C c (s.hoistDim c d)
    unfold Store.hoistDim
    split
    · exact .refl
    · exact .single (.dim d.name)
  | .function d, _, hF, _ => .single (.function (hF d (List.mem_singleton.mpr rfl)))
  | .class d, _, _, hC => .single (.classDecl (hC d (List.mem_singleton.mpr rfl)))
  | .optionExplicit _, _, _, _ => .single .explicit
  | .cond _ _ t e, s, hF, hC => by
    have ht := furnishes_hoistBlock t s (fun d hd => hF d (List.mem_append_left _ hd))
      fun d hd => hC d (List.mem_append_left _ hd)
    exact ht.trans (furnishes_hoistBlock e _ (fun d hd => hF d (List.mem_append_right _ hd))
      fun d hd => hC d (List.mem_append_right _ hd))
  | .assign .., _, _, _ => .refl
  | .expr .., _, _, _ => .refl
  | .exit .., _, _, _ => .refl

theorem furnishes_hoistAll : ∀ (stmts : List Stmt) (s : Store),
    (∀ d ∈ Stmt.declaredAll Stmt.ownFunction stmts, F d) →
    (∀ d ∈ Stmt.declaredAll Stmt.ownClass stmts, C d) →
    s.Furnishes F C c (Stmt.hoistAll c s stmts)
  | [], _, _, _ => .refl
  | stmt :: stmts, s, hF, hC => by
    have hstmt := furnishes_hoistStmt stmt s (fun d hd => hF d (List.mem_append_left _ hd))
      fun d hd => hC d (List.mem_append_left _ hd)
    exact hstmt.trans (furnishes_hoistAll stmts _ (fun d hd => hF d (List.mem_append_right _ hd))
      fun d hd => hC d (List.mem_append_right _ hd))

theorem furnishes_hoistBlock : ∀ (b : Block) (s : Store),
    (∀ d ∈ b.declared Stmt.ownFunction, F d) → (∀ d ∈ b.declared Stmt.ownClass, C d) →
    s.Furnishes F C c (b.hoist c s)
  | ⟨_, stmts⟩, s, hF, hC => furnishes_hoistAll stmts s hF hC
end

theorem furnishes_hoist (s : Store) {b : Block} (hF : ∀ d ∈ b.functions, F d)
    (hC : ∀ d ∈ b.classes, C d) : s.Furnishes F C c (b.hoist c s) :=
  furnishes_hoistBlock b s hF hC

theorem equips_hoist (s : Store) (c : ScopeId) (b : Block) : s.Equips c (b.hoist c s) :=
  s.furnishes_hoist (fun _ _ => trivial) fun _ _ => trivial

theorem furnishes_bindParams (byRef : Bool) (ps : List Param) {args : List SlotId} {s : Store}
    (hargs : ∀ arg ∈ args, s.Plain arg) : s.Furnishes F C c (bindParams byRef c ps args s) := by
  induction ps generalizing args s with
  | nil => exact .refl
  | cons p ps ih =>
    cases args with
    | nil => exact .refl
    | cons arg args =>
      have harg := hargs arg (by simp)
      obtain ⟨s₁, hstep, hrest⟩ : ∃ s₁, s.Furnish F C c s₁ ∧
          Eval.bindParams byRef c (p :: ps) (arg :: args) s
            = Eval.bindParams byRef c ps args s₁ := by
        cases hbyRef : p.byRef.getD byRef with
        | true => exact ⟨_, .byRef p.name harg, by simp [Eval.bindParams, hbyRef]⟩
        | false => exact ⟨_, .byValue p.name harg, by simp [Eval.bindParams, hbyRef, Store.declare]⟩
      rw [hrest]
      refine .head hstep (ih fun arg' harg' => ?_)
      exact hstep.grows.plain (hargs arg' (List.mem_cons_of_mem _ harg'))

theorem Furnish.owned (h : s.Furnish F C c s') {o : ObjectId} (ho : (s.object o).scope = some c) :
    (s'.object o).scope = some c :=
  h.grows.owned o c ho

theorem furnishes_foldl {α : Type} {f : Store → α → Store} {o : ObjectId} (as : List α)
    (hf : ∀ a ∈ as, ∀ s : Store, (s.object o).scope = some c → s.Furnish F C c (f s a)) {s : Store}
    (ho : (s.object o).scope = some c) : s.Furnishes F C c (as.foldl f s) := by
  induction as generalizing s with
  | nil => exact .refl
  | cons a as ih =>
    have hstep := hf a (by simp) s ho
    exact .head hstep (ih (fun b hb => hf b (List.mem_cons_of_mem _ hb)) (hstep.owned ho))

theorem furnishes_members (d : ClassDecl) (hF : ∀ method ∈ d.methods, F method) {o : ObjectId}
    (ho : (s.object o).scope = some c) :
    s.Furnishes F C c (d.methods.foldl (fun s method => s.addMethod o c method)
      (d.fields.foldl (fun s field => s.addMember o c field.name .empty) s)) := by
  have hfields := furnishes_foldl (F := F) (C := C)
    (f := fun s (field : Dim) => s.addMember o c field.name .empty) d.fields
    (fun field _ _ ho => .field field.name ho) ho
  have hmethods := furnishes_foldl (C := C) d.methods
    (fun method hmethod _ ho => .method (hF method hmethod) ho) (hfields.grows.owned o c ho)
  exact hfields.trans hmethods

end

/-! ## instances and activations -/

def opened (s : Store) (d : ClassDecl) (home : ScopeId) : Store :=
  ((s.newChild home none).2.newObject ⟨d.name, .empty, some ⟨s.scopes.size⟩⟩).2.modifyScope
    ⟨s.scopes.size⟩ fun sc => { sc with owner := some ⟨s.objects.size⟩ }

theorem grows_opened (s : Store) (d : ClassDecl) (home : ScopeId) : s.Grows (s.opened d home) :=
  ((s.grows_newScope _ _ _).trans (grows_newObject _ _)).trans (grows_modifyScope _ _ fun _ => rfl)

theorem InOrder.opened (h : s.InOrder) (d : ClassDecl) (home : ScopeId) :
    (s.opened d home).InOrder :=
  ((h.newScope _ _ _).newObject _ _).modifyScope _ fun _ => ⟨rfl, rfl, rfl⟩

theorem scope_opened (s : Store) (d : ClassDecl) (home : ScopeId) :
    ((s.opened d home).object ⟨s.objects.size⟩).scope = some ⟨s.scopes.size⟩ := by
  show (((s.newChild home none).2.newObject _).2.object ⟨s.objects.size⟩).scope = _
  rw [object_newObject]
  exact congrArg Object.scope (if_pos rfl)

theorem classes_opened (s : Store) (d : ClassDecl) (home : ScopeId) {x : ScopeId} {n : String}
    {k : ClassDecl} (h : ((s.opened d home).scope x).classes.find? n = some k) :
    (s.scope x).classes.find? n = some k := by
  rw [opened, scope_modifyScope, apply_ite Scope.classes, ite_self] at h
  exact s.classes_newScope _ _ _ h

section

variable {F : FunctionDecl → Prop} {C : ClassDecl → Prop}

theorem furnishes_newInstance (s : Store) (d : ClassDecl) (home : ScopeId)
    (hF : ∀ method ∈ d.methods, F method) :
    (s.opened d home).Furnishes F C ⟨s.scopes.size⟩ (s.newInstance d home).2 :=
  furnishes_members d hF (s.scope_opened d home)

theorem equips_newInstance (s : Store) (d : ClassDecl) (home : ScopeId) :
    (s.opened d home).Equips ⟨s.scopes.size⟩ (s.newInstance d home).2 :=
  s.furnishes_newInstance d home fun _ _ => trivial

theorem grows_newInstance (s : Store) (d : ClassDecl) (home : ScopeId) :
    s.Grows (s.newInstance d home).2 :=
  (s.grows_opened d home).trans (s.equips_newInstance d home).grows

/-- the scope of a new instance lies right inside the scope that declares its class -/
theorem outer_newInstance (s : Store) (d : ClassDecl) (home : ScopeId) :
    ((s.newInstance d home).2.scope ⟨s.scopes.size⟩).outer = home :: (s.scope home).outer := by
  have hlt : s.scopes.size < (s.opened d home).scopes.size :=
    (s.lt_newScope (home :: (s.scope home).outer) (s.scope home).isExplicit none).trans_eq
      Array.size_modify.symm
  have hopened : ((s.opened d home).scope ⟨s.scopes.size⟩).outer
      = home :: (s.scope home).outer := by
    rw [opened, scope_modifyScope, apply_ite Scope.outer, ite_self]
    exact (s.outer_newScope _ _ _ _).trans (if_pos rfl)
  have hgrows := (s.equips_newInstance d home).grows
  exact (hgrows.outer ⟨s.scopes.size⟩ hlt).trans hopened

theorem owned_newInstance (s : Store) (d : ClassDecl) (home : ScopeId) {o : ObjectId} {c : ScopeId}
    (h : ((s.newInstance d home).2.object o).scope = some c) :
    (s.object o).scope = some c ∨ c = ⟨s.scopes.size⟩ := by
  rw [(s.equips_newInstance d home).furnished.owned] at h
  have h : (((s.newChild home none).2.newObject ⟨d.name, .empty, some ⟨s.scopes.size⟩⟩).2.object
      o).scope = some c := h
  rw [object_newObject] at h
  split at h
  · exact .inr (Option.some.inj h).symm
  · exact .inl h

/-- an activation is a new scope with its parameters and declarations -/
theorem furnishes_activate (s : Store) (byRef : Bool) {d : FunctionDecl} (home : ScopeId)
    {args : List SlotId} (hargs : ∀ arg ∈ args, s.Plain arg) (hF : ∀ f ∈ d.body.functions, F f)
    (hC : ∀ k ∈ d.body.classes, C k) :
    (s.newChild home (resultName d)).2.Furnishes F C ⟨s.scopes.size⟩
      (activate byRef d home args s).2 := by
  have hparams := furnishes_bindParams (F := F) (C := C) (c := ⟨s.scopes.size⟩) byRef d.params
    fun arg harg => (s.grows_newScope (home :: (s.scope home).outer) (s.scope home).isExplicit
      (resultName d)).plain (hargs arg harg)
  exact hparams.trans (furnishes_hoist _ hF hC)

end

section

variable (s : Store) (byRef : Bool) {d : FunctionDecl} (home : ScopeId) {args : List SlotId}
  (hargs : ∀ arg ∈ args, s.Plain arg)
include hargs

theorem equips_activate : (s.newChild home (resultName d)).2.Equips ⟨s.scopes.size⟩
    (activate byRef d home args s).2 :=
  s.furnishes_activate byRef home hargs (fun _ _ => trivial) fun _ _ => trivial

theorem grows_activate : s.Grows (activate byRef d home args s).2 :=
  (s.grows_newScope _ _ _).trans (s.equips_activate byRef home hargs).grows

/-- an activation lies right inside the scope that the function belongs to -/
theorem outer_activate :
    ((activate byRef d home args s).2.scope ⟨s.scopes.size⟩).outer
      = home :: (s.scope home).outer := by
  have hgrows := (s.equips_activate byRef (d := d) home hargs).grows
  have hnew : ((s.newChild home (resultName d)).2.scope ⟨s.scopes.size⟩).outer
      = home :: (s.scope home).outer := (s.outer_newScope _ _ _ _).trans (if_pos rfl)
  exact (hgrows.outer ⟨s.scopes.size⟩ (s.lt_newScope _ _ _)).trans hnew

theorem lt_activate : s.scopes.size < (activate byRef d home args s).2.scopes.size :=
  (s.lt_newScope _ _ _).trans_le (s.equips_activate byRef home hargs).grows.scopes

end

end Store

end PageScript
