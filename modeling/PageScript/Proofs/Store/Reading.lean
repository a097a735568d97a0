import PageScript.Store

/-!
# Reading what was written

What is read in a store after something was created or changed: the new thing at its own identity,
and everything else as before.
-/

namespace PageScript

variable {α : Type} [Inhabited α]

theorem getD_push (as : Array α) (a : α) (i : Nat) :
    (as.push a)[i]?.getD default = if i = as.size then a else as[i]?.getD default := by
  rw [Array.getElem?_push]
  split <;> rfl

theorem getD_modify (as : Array α) (j : Nat) (f : α → α) (i : Nat) :
    (as.modify j f)[i]?.getD default
      = if j = i ∧ i < as.size then f (as[i]?.getD default) else as[i]?.getD default := by
  rw [Array.getElem?_modify]
  by_cases hij : j = i
  · by_cases hi : i < as.size
    · simp [hij, hi]
    · simp [hij, hi]
  · simp [hij]

namespace Store

def freshScope (s : Store) (outer : List ScopeId) (isExplicit : Bool) (name : Option String) :
    Scope :=
  ⟨outer, .empty, .empty, isExplicit, ⟨s.slots.size⟩, name.map Text.fold, none⟩

theorem scope_newScope (s : Store) (outer : List ScopeId) (isExplicit : Bool)
    (name : Option String) (id : ScopeId) :
    (s.newScope outer isExplicit name).2.scope id
      = if id.index = s.scopes.size then s.freshScope outer isExplicit name else s.scope id :=
  getD_push s.scopes _ id.index

theorem scope_modifyScope (s : Store) (c : ScopeId) (f : Scope → Scope) (id : ScopeId) :
    (s.modifyScope c f).scope id
      = if c.index = id.index ∧ id.index < s.scopes.size then f (s.scope id) else s.scope id :=
  getD_modify s.scopes c.index f id.index

theorem object_newObject (s : Store) (o : Object) (id : ObjectId) :
    (s.newObject o).2.object id = if id.index = s.objects.size then o else s.object id :=
  getD_push s.objects o id.index

theorem object_modifyObject (s : Store) (c : ObjectId) (f : Object → Object) (id : ObjectId) :
    (s.modifyObject c f).object id
      = if c.index = id.index ∧ id.index < s.objects.size then f (s.object id) else s.object id :=
  getD_modify s.objects c.index f id.index

theorem function_newFunction (s : Store) (f : Function) (id : FunctionId) :
    (s.newFunction f).2.function id = if id.index = s.functions.size then f else s.function id :=
  getD_push s.functions f id.index

end Store

end PageScript
