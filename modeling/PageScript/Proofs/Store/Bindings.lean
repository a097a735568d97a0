import PageScript.Proofs.Store.Growth

/-!
# Which names get bound

A scope gets bindings by declarations, by parameters, and by the members of the instance that it
belongs to.  `Store.BindsOnly names c` says that a change binds these names at most, and in this
scope alone.

* `Store.bindsOnly_hoist`        the declarations of a block bind its variables and functions;
* `Store.bindsOnly_newInstance`  a new instance binds its members, in its own scope;
* `Store.bindsOnly_activate`     a function that is entered binds its parameters and what its body
                             declares, in a scope of its own;
* `Store.BindsPlain`             a name gets bound only to a slot that is new or holds no function.
-/

namespace PageScript

open Eval

/-- a name is one of a list of names, in some letter case -/
def Named (names : List String) (n : String) : Prop := ∃ m ∈ names, Text.fold n = Text.fold m

theorem named_append {names more : List String} {n : String} :
    Named (names ++ more) n ↔ Named names n ∨ Named more n := by
  simp only [Named, List.mem_append, or_and_right, exists_or]

namespace Store

/-- every binding was there before, or is one of the names in the scope -/
def BindsOnly (names : List String) (c : ScopeId) (s s' : Store) : Prop :=
  ∀ x n id, (s'.scope x).bindings.find? n = some id →
    (s.scope x).bindings.find? n = some id ∨ x = c ∧ Named names n

variable {s s₁ s₂ : Store} {names more : List String} {c : ScopeId}

theorem BindsOnly.append (h : s.BindsOnly names c s₁) (h₁ : s₁.BindsOnly more c s₂) :
    s.BindsOnly (names ++ more) c s₂ := by
  intro x n id hid
  rcases h₁ x n id hid with hid | ⟨hx, hn⟩
  · exact (h x n id hid).imp_right (And.imp_right fun hn => named_append.mpr (.inl hn))
  · exact .inr ⟨hx, named_append.mpr (.inr hn)⟩

theorem bindsOnly_of_bindings (h : ∀ x, (s₁.scope x).bindings = (s.scope x).bindings) :
    s.BindsOnly names c s₁ :=
  fun x _ _ hid => .inl (h x ▸ hid)

theorem BindsOnly.after (h : s₁.BindsOnly names c s₂)
    (hsame : ∀ x, (s₁.scope x).bindings = (s.scope x).bindings) : s.BindsOnly names c s₂ :=
  fun x n id hid => hsame x ▸ h x n id hid

theorem bindsOnly_newScope (s : Store) (outer : List ScopeId) (isExplicit : Bool)
    (name : Option String) : s.BindsOnly [] c (s.newScope outer isExplicit name).2 := by
  intro x n id hid
  rw [scope_newScope] at hid
  split at hid
  · cases hid
  · exact .inl hid

theorem bindsOnly_modifyScope (x : ScopeId) {f : Scope → Scope}
    (hf : ∀ sc, (f sc).bindings = sc.bindings) : s.BindsOnly names c (s.modifyScope x f) := by
  refine bindsOnly_of_bindings fun y => ?_
  rw [scope_modifyScope, apply_ite Scope.bindings, hf, ite_self]

theorem bindsOnly_bind (s : Store) (c : ScopeId) (n : String) (id : SlotId) :
    s.BindsOnly [n] c (s.bind c n id) := by
  intro x m id' h
  rw [bind, scope_modifyScope] at h
  split at h
  · rename_i hx
    rw [NameTable.find?_insert] at h
    split at h
    · rename_i hm
      exact .inr ⟨(congrArg ScopeId.mk hx.1).symm, n, List.mem_singleton.mpr rfl, hm⟩
    · exact .inl h
  · exact .inl h

theorem bindsOnly_declare (s : Store) (c : ScopeId) (n : String) (v : Value) :
    s.BindsOnly [n] c (s.declare c n v).2 :=
  ((s.newSlot v).2.bindsOnly_bind c n _).after fun _ => rfl

theorem bindsOnly_declareFunction (s : Store) (c : ScopeId) (d : FunctionDecl) :
    s.BindsOnly [d.name] c (s.declareFunction c d).2 :=
  ((s.newFunction (.script d c)).2.bindsOnly_declare c d.name _).after fun _ => rfl

/-! ## declarations -/

mutual
theorem bindsOnly_hoistStmt : ∀ (stmt : Stmt) (s : Store),
    s.BindsOnly (stmt.declared Stmt.ownName) c (stmt.hoist c s)
  | .dim d, s => by
    show s.BindsOnly [d.name] c (s.hoistDim c d)
    unfold hoistDim
    split
    · exact bindsOnly_of_bindings fun _ => rfl
    · exact s.bindsOnly_declare c d.name .empty
  | .function d, s => s.bindsOnly_declareFunction c d
  | .class _, _ => bindsOnly_modifyScope c fun _ => rfl
  | .optionExplicit _, _ => bindsOnly_modifyScope c fun _ => rfl
  | .cond _ _ t e, s => (bindsOnly_hoistBlock t s).append (bindsOnly_hoistBlock e _)
  | .assign .., _ => bindsOnly_of_bindings fun _ => rfl
  | .expr .., _ => bindsOnly_of_bindings fun _ => rfl
  | .exit .., _ => bindsOnly_of_bindings fun _ => rfl

theorem bindsOnly_hoistAll : ∀ (stmts : List Stmt) (s : Store),
    s.BindsOnly (Stmt.declaredAll Stmt.ownName stmts) c (Stmt.hoistAll c s stmts)
  | [], _ => bindsOnly_of_bindings fun _ => rfl
  | stmt :: stmts, s => (bindsOnly_hoistStmt stmt s).append (bindsOnly_hoistAll stmts _)

theorem bindsOnly_hoistBlock : ∀ (b : Block) (s : Store),
    s.BindsOnly (b.declared Stmt.ownName) c (b.hoist c s)
  | ⟨_, stmts⟩, s => bindsOnly_hoistAll stmts s
end

theorem bindsOnly_hoist (s : Store) (c : ScopeId) (b : Block) :
    s.BindsOnly b.names c (b.hoist c s) :=
  bindsOnly_hoistBlock b s

/-! ## parameters and members -/

theorem bindsOnly_bindParams (byRef : Bool) (c : ScopeId) (ps : List Param) (args : List SlotId)
    (s : Store) : s.BindsOnly (ps.map (·.name)) c (bindParams byRef c ps args s) := by
  induction ps generalizing args s with
  | nil => exact bindsOnly_of_bindings fun _ => rfl
  | cons p ps ih =>
    cases args with
    | nil => exact bindsOnly_of_bindings fun _ => rfl
    | cons arg args =>
      simp only [bindParams]
      split
      · exact (s.bindsOnly_bind c p.name _).append (ih args _)
      · exact (s.bindsOnly_declare c p.name _).append (ih args _)

/-- members are given to an instance one after the other -/
theorem bindsOnly_foldl {α : Type} {f : Store → α → Store} {name : α → String}
    (hf : ∀ s a, BindsOnly [name a] c s (f s a)) (as : List α) (s : Store) :
    s.BindsOnly (as.map name) c (as.foldl f s) := by
  induction as generalizing s with
  | nil => exact bindsOnly_of_bindings fun _ => rfl
  | cons a as ih => exact (hf s a).append (ih (f s a))

theorem bindsOnly_newInstance (s : Store) (d : ClassDecl) (home : ScopeId) :
    s.BindsOnly d.memberNames ⟨s.scopes.size⟩ (s.newInstance d home).2 := by
  have hopened : ∀ x, ((s.opened d home).scope x).bindings
      = ((s.newChild home none).2.scope x).bindings := by
    intro x
    rw [opened, scope_modifyScope, apply_ite Scope.bindings, ite_self]
    rfl
  let o : ObjectId := ⟨s.objects.size⟩
  let own : ScopeId := ⟨s.scopes.size⟩
  have hfields := bindsOnly_foldl (f := fun s (field : Dim) => s.addMember o own field.name .empty)
    (fun s field => s.bindsOnly_declare own field.name .empty) d.fields (s.opened d home)
  have hmethods := bindsOnly_foldl (f := fun s method => s.addMethod o own method)
    (fun s method => s.bindsOnly_declareFunction own method) d.methods
  exact (s.bindsOnly_newScope _ _ _).append ((hfields.append (hmethods _)).after hopened)

theorem bindsOnly_activate (s : Store) (byRef : Bool) (d : FunctionDecl) (home : ScopeId)
    (args : List SlotId) :
    s.BindsOnly (d.paramNames ++ d.body.names) ⟨s.scopes.size⟩
      (activate byRef d home args s).2 := by
  have hparams := (s.bindsOnly_newScope _ _ _).append
    (bindsOnly_bindParams byRef ⟨s.scopes.size⟩ d.params args (s.newChild home (resultName d)).2)
  exact hparams.append (bindsOnly_hoist _ _ d.body)

/-! ## what names get bound to -/

/-- a name that gets bound gets bound to a new slot, or to one that holds no function -/
def BindsPlain (s s' : Store) : Prop :=
  ∀ c n id, (s'.scope c).bindings.find? n = some id →
    (s.scope c).bindings.find? n = some id ∨ s.slots.size ≤ id.index ∨ s.Plain id

theorem bindsPlain_of_bindings (h : ∀ x, (s₁.scope x).bindings = (s.scope x).bindings) :
    s.BindsPlain s₁ :=
  fun x _ _ hid => .inl (h x ▸ hid)

theorem bindsPlain_bind (s : Store) (c : ScopeId) (n : String) {id : SlotId}
    (h : s.slots.size ≤ id.index ∨ s.Plain id) : s.BindsPlain (s.bind c n id) := by
  intro x m id' hid'
  rcases find?_bind hid' with hold | ⟨-, rfl⟩
  · exact .inl hold
  · exact .inr h

/-- a store in which the slots that there were are what they were, and names have got bound -/
structure Adds (s s' : Store) : Prop where
  slots : s.slots.size ≤ s'.slots.size
  slot : ∀ id, id.index < s.slots.size → s'.slot id = s.slot id
  bindsPlain : s.BindsPlain s'

namespace Adds

theorem of_eq (hslots : s₁.slots = s.slots) (hscopes : s₁.scopes = s.scopes) : s.Adds s₁ := by
  refine ⟨hslots ▸ le_rfl, fun id _ => ?_, bindsPlain_of_bindings fun x => ?_⟩
  · rw [Store.slot, hslots, Store.slot]
  · rw [scope, hscopes, scope]

theorem refl (s : Store) : s.Adds s := of_eq rfl rfl

theorem trans (h : s.Adds s₁) (h₁ : s₁.Adds s₂) : s.Adds s₂ where
  slots := h.slots.trans h₁.slots
  slot id hid := (h₁.slot id (hid.trans_le h.slots)).trans (h.slot id hid)
  bindsPlain c n id hid := by
    rcases h₁.bindsPlain c n id hid with hold | hnew | hplain
    · exact h.bindsPlain c n id hold
    · exact .inr (.inl (h.slots.trans hnew))
    · rcases lt_or_ge id.index s.slots.size with hlt | hge
      · exact .inr (.inr ⟨hlt, h.slot id hlt ▸ hplain.2⟩)
      · exact .inr (.inl hge)

theorem newSlot (s : Store) (v : Value) : s.Adds (s.newSlot v).2 :=
  ⟨(s.lt_newSlot v).le, fun _ hid => slot_newSlot_of_lt hid, bindsPlain_of_bindings fun _ => rfl⟩

theorem modifyScope (s : Store) (x : ScopeId) {f : Scope → Scope}
    (hf : ∀ sc, (f sc).bindings = sc.bindings) : s.Adds (s.modifyScope x f) := by
  refine ⟨le_rfl, fun _ _ => rfl, bindsPlain_of_bindings fun y => ?_⟩
  rw [scope_modifyScope, apply_ite Scope.bindings, hf, ite_self]

theorem newScope (s : Store) (outer : List ScopeId) (isExplicit : Bool) (name : Option String) :
    s.Adds (s.newScope outer isExplicit name).2 := by
  refine ⟨(s.lt_newSlot .empty).le, fun _ hid => slot_newSlot_of_lt hid, fun x n id hid => ?_⟩
  rw [scope_newScope] at hid
  split at hid
  · cases hid
  · exact .inl hid

theorem declare (s : Store) (c : ScopeId) (n : String) (v : Value) : s.Adds (s.declare c n v).2 := by
  refine ⟨(newSlot s v).slots, (newSlot s v).slot, fun x m id hid => ?_⟩
  rcases find?_bind hid with hold | ⟨-, rfl⟩
  · exact .inl hold
  · exact .inr (.inl le_rfl)

theorem declareFunction (s : Store) (c : ScopeId) (d : FunctionDecl) :
    s.Adds (s.declareFunction c d).2 := by
  have hfunction : s.Adds (s.newFunction (.script d c)).2 := of_eq rfl rfl
  exact hfunction.trans (declare _ c d.name _)

theorem opened (s : Store) (d : ClassDecl) (home : ScopeId) : s.Adds (s.opened d home) := by
  have hchild := newScope s (home :: (s.scope home).outer) (s.scope home).isExplicit none
  have hobject : (s.newChild home none).2.Adds
      ((s.newChild home none).2.newObject ⟨d.name, .empty, some ⟨s.scopes.size⟩⟩).2 := of_eq rfl rfl
  exact (hchild.trans hobject).trans (modifyScope _ _ fun _ => rfl)

end Adds

variable {F : FunctionDecl → Prop} {C : ClassDecl → Prop}

theorem Furnish.adds (h : s.Furnish F C c s₁) : s.Adds s₁ := by
  cases h with
  | dim n => exact .declare s c n .empty
  | function _ => exact .declareFunction s c _
  | classDecl _ => exact .modifyScope s c fun _ => rfl
  | explicit => exact .modifyScope s c fun _ => rfl
  | byRef n harg => exact ⟨le_rfl, fun _ _ => rfl, s.bindsPlain_bind c n (.inr harg)⟩
  | byValue n _ => exact .declare s c n _
  | field n _ => exact (Adds.declare s c n .empty).trans (.of_eq rfl rfl)
  | method _ _ => exact (Adds.declareFunction s c _).trans (.of_eq rfl rfl)

theorem Furnishes.adds (h : s.Furnishes F C c s₁) : s.Adds s₁ := by
  induction h with
  | refl => exact .refl s
  | tail _ hstep ih => exact ih.trans hstep.adds

end Store

end PageScript
