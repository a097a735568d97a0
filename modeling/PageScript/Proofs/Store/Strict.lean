import PageScript.Proofs.Store.Homes
import PageScript.Proofs.Store.Liveness

/-!
# Stores where names have to be declared

`Store.strict` makes declarations compulsory in every scope of a store and leaves everything else as
it is.  What is alive, what a name stands for and where a class is declared do not depend on it, and
every change of a store can be made before or after; only the scope of a function or an instance has
to be there, since a new scope is as strict as the one around it.
-/

namespace PageScript

open Eval

/-- a scope where names have to be declared -/
def Scope.strict (sc : Scope) : Scope := { sc with isExplicit := true }

namespace Store

variable (s : Store)

def strict : Store := { s with scopes := s.scopes.map Scope.strict }

theorem strict_empty : empty.strict = empty :=
  congrArg (fun scopes => { empty with scopes }) Array.map_empty

/-! ## reading -/

@[simp] theorem size_strict : s.strict.scopes.size = s.scopes.size := Array.size_map

theorem scope_strict (c : ScopeId) :
    s.strict.scope c = if c.index < s.scopes.size then (s.scope c).strict else s.scope c := by
  show (s.scopes.map Scope.strict)[c.index]?.getD default = _
  rw [Array.getElem?_map]
  split
  · rename_i hc
    rw [scope, Array.getElem?_eq_getElem hc]
    rfl
  · rename_i hc
    rw [scope, Array.getElem?_eq_none (not_lt.mp hc)]
    rfl

@[simp] theorem outer_strict (c : ScopeId) : (s.strict.scope c).outer = (s.scope c).outer := by
  rw [scope_strict, apply_ite Scope.outer]
  exact ite_self _

@[simp] theorem bindings_strict (c : ScopeId) :
    (s.strict.scope c).bindings = (s.scope c).bindings := by
  rw [scope_strict, apply_ite Scope.bindings]
  exact ite_self _

@[simp] theorem classes_strict (c : ScopeId) :
    (s.strict.scope c).classes = (s.scope c).classes := by
  rw [scope_strict, apply_ite Scope.classes]
  exact ite_self _

@[simp] theorem result_strict (c : ScopeId) : (s.strict.scope c).result = (s.scope c).result := by
  rw [scope_strict, apply_ite Scope.result]
  exact ite_self _

@[simp] theorem functionName_strict (c : ScopeId) :
    (s.strict.scope c).functionName = (s.scope c).functionName := by
  rw [scope_strict, apply_ite Scope.functionName]
  exact ite_self _

@[simp] theorem owner_strict (c : ScopeId) : (s.strict.scope c).owner = (s.scope c).owner := by
  rw [scope_strict, apply_ite Scope.owner]
  exact ite_self _

theorem isExplicit_strict {c : ScopeId} (hc : c.index < s.scopes.size) :
    (s.strict.scope c).isExplicit = true := by
  rw [scope_strict, if_pos hc]
  rfl

/-! ## what is alive, and what names stand for -/

theorem holds_strict (r : Ref) : s.strict.holds r = s.holds r := by
  cases r with
  | scope c => simp only [holds, result_strict, bindings_strict]
  | slot _ => rfl
  | object _ => rfl

theorem refs_strict : s.strict.refs = s.refs := by
  simp only [refs, size_strict]
  rfl

theorem supported_strict (held : List Ref) (X : Ref → Prop) :
    s.strict.Supported held X ↔ s.Supported held X := by
  simp only [Supported, holds_strict, refs_strict]

theorem alive_strict (held : List Ref) (r : Ref) : s.strict.alive held r = s.alive held r := by
  rw [Bool.eq_iff_iff, alive_iff, alive_iff]
  simp only [supported_strict]

theorem search_strict {α : Type} (held : List Ref) (here : ScopeId → Option α)
    (ids : List ScopeId) : s.strict.search held here ids = s.search held here ids := by
  induction ids with
  | nil => rfl
  | cons c ids ih => simp only [search, alive_strict, ih]

theorem searchFrom_strict {α : Type} (held : List Ref) (here : ScopeId → Option α) (c : ScopeId) :
    s.strict.searchFrom held here c = s.searchFrom held here c := by
  simp only [searchFrom, outer_strict, search_strict]

theorem findHere_strict (held : List Ref) (use : Use) (n : String) (c : ScopeId) :
    s.strict.findHere held use n c = s.findHere held use n c := by
  simp only [findHere, owner?, bindings_strict, functionName_strict, result_strict, owner_strict,
    alive_strict]

theorem find_strict (held : List Ref) (use : Use) (n : String) (c : ScopeId) :
    s.strict.find held use n c = s.find held use n c := by
  rw [find, find, searchFrom_strict, funext (s.findHere_strict held use n)]

theorem findClass_strict (held : List Ref) (n : String) (c : ScopeId) :
    s.strict.findClass held n c = s.findClass held n c := by
  simp only [findClass, searchFrom_strict, classes_strict]

/-! ## changing -/

theorem strict_modifyScope (c : ScopeId) {f : Scope → Scope}
    (hf : ∀ sc, (f sc).strict = f sc.strict) :
    (s.modifyScope c f).strict = s.strict.modifyScope c f := by
  show Store.mk ((s.scopes.modify c.index f).map Scope.strict) _ _ _
    = Store.mk ((s.scopes.map Scope.strict).modify c.index f) _ _ _
  congr 1
  refine Array.ext_getElem? fun i => ?_
  rw [Array.getElem?_map, Array.getElem?_modify, Array.getElem?_modify, Array.getElem?_map]
  split
  · cases s.scopes[i]? with
    | none => rfl
    | some sc => exact congrArg some (hf sc)
  · rfl

theorem strict_bind (c : ScopeId) (n : String) (id : SlotId) :
    (s.bind c n id).strict = s.strict.bind c n id :=
  s.strict_modifyScope c fun _ => rfl

theorem strict_declare (c : ScopeId) (n : String) (v : Value) :
    s.strict.declare c n v = ((s.declare c n v).1, (s.declare c n v).2.strict) :=
  congrArg (Prod.mk _) ((s.newSlot v).2.strict_bind c n _).symm

theorem strict_declareFunction (c : ScopeId) (d : FunctionDecl) :
    s.strict.declareFunction c d = ((s.declareFunction c d).1, (s.declareFunction c d).2.strict) :=
  (s.newFunction (.script d c)).2.strict_declare c d.name _

theorem strict_newScope (outer : List ScopeId) (isExplicit : Bool) (name : Option String) :
    s.strict.newScope outer true name
      = ((s.newScope outer isExplicit name).1, (s.newScope outer isExplicit name).2.strict) := by
  simp only [newScope, newSlot, strict, Array.map_push, Array.size_map, Scope.strict]

/-- a new scope is as strict as the one around it -/
theorem strict_newChild {parent : ScopeId} (hparent : parent.index < s.scopes.size)
    (name : Option String) :
    s.strict.newChild parent name
      = ((s.newChild parent name).1, (s.newChild parent name).2.strict) := by
  simp only [newChild, s.isExplicit_strict hparent, outer_strict]
  exact s.strict_newScope _ _ name

/-! ## declarations, instances and activations -/

mutual
theorem strict_hoistStmt (c : ScopeId) : ∀ (stmt : Stmt) (s : Store),
    (stmt.hoist c s).strict = stmt.hoist c s.strict
  | .dim d, s => by
    show (s.hoistDim c d).strict = s.strict.hoistDim c d
    simp only [Store.hoistDim, bindings_strict]
    split
    · rfl
    · rw [strict_declare]
  | .function d, s => (congrArg Prod.snd (s.strict_declareFunction c d)).symm
  | .class d, s => s.strict_modifyScope c fun _ => rfl
  | .optionExplicit _, s => s.strict_modifyScope c fun _ => rfl
  | .cond _ _ t e, s => by
    show (e.hoist c (t.hoist c s)).strict = e.hoist c (t.hoist c s.strict)
    rw [strict_hoist c e, strict_hoist c t]
  | .assign .., _ => rfl
  | .expr .., _ => rfl
  | .exit .., _ => rfl

theorem strict_hoistAll (c : ScopeId) : ∀ (stmts : List Stmt) (s : Store),
    (Stmt.hoistAll c s stmts).strict = Stmt.hoistAll c s.strict stmts
  | [], _ => rfl
  | stmt :: stmts, s => by
    show (Stmt.hoistAll c (stmt.hoist c s) stmts).strict
      = Stmt.hoistAll c (stmt.hoist c s.strict) stmts
    rw [strict_hoistAll c stmts, strict_hoistStmt c stmt]

theorem strict_hoist (c : ScopeId) : ∀ (b : Block) (s : Store),
    (b.hoist c s).strict = b.hoist c s.strict
  | ⟨_, stmts⟩, s => strict_hoistAll c stmts s
end

theorem strict_foldl {α : Type} {f : Store → α → Store}
    (hf : ∀ s a, (f s a).strict = f s.strict a) (as : List α) :
    (as.foldl f s).strict = as.foldl f s.strict := by
  induction as generalizing s with
  | nil => rfl
  | cons a as ih => rw [List.foldl_cons, List.foldl_cons, ih, hf]

theorem strict_newInstance (d : ClassDecl) {home : ScopeId} (hhome : home.index < s.scopes.size) :
    s.strict.newInstance d home
      = ((s.newInstance d home).1, (s.newInstance d home).2.strict) := by
  have hfield : ∀ o c (s : Store) (field : Dim),
      (s.addMember o c field.name .empty).strict = s.strict.addMember o c field.name .empty := by
    intro o c s field
    simp only [addMember, strict_declare]
    rfl
  have hmethod : ∀ o c (s : Store) (method : FunctionDecl),
      (s.addMethod o c method).strict = s.strict.addMethod o c method := by
    intro o c s method
    simp only [addMethod, strict_declareFunction]
    rfl
  simp only [newInstance, s.strict_newChild hhome]
  rw [strict_foldl _ (hmethod _ _), strict_foldl _ (hfield _ _), strict_modifyScope]
  · rfl
  · exact fun _ => rfl

theorem strict_bindParams (byRef : Bool) (c : ScopeId) (ps : List Param) (args : List SlotId) :
    (bindParams byRef c ps args s).strict = bindParams byRef c ps args s.strict := by
  induction ps generalizing args s with
  | nil => rfl
  | cons p ps ih =>
    cases args with
    | nil => rfl
    | cons arg args =>
      simp only [bindParams]
      split
      · rw [ih, strict_bind]
      · rw [ih, strict_bind]
        rfl

theorem strict_activate (byRef : Bool) (d : FunctionDecl) {home : ScopeId}
    (hhome : home.index < s.scopes.size) (args : List SlotId) :
    activate byRef d home args s.strict
      = ((activate byRef d home args s).1, (activate byRef d home args s).2.strict) := by
  simp only [activate, s.strict_newChild hhome, strict_hoist, strict_bindParams]

end Store

end PageScript
