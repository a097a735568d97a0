import PageScript.Proofs.Store.Growth

/-!
# Where functions belong

In the sessions of a host that offers nothing but `response`, a function that a scope binds belongs
to this very scope, and a method belongs to the scope of its instance.  So whoever comes by a
function through a name has come by the scope that it belongs to.

* `Store.Homed`     the invariant;
* `Store.Quiet`     what a step does to a store that declares, creates and enters nothing.
-/

namespace PageScript

open Eval

namespace Store

variable {s s' s₁ s₂ : Store} {globals : ScopeId}

/-- functions are found in the scopes that they belong to, or in instances with these scopes; the
only routine of the host is `write`, of the global scope -/
structure Homed (globals : ScopeId) (s : Store) : Prop where
  binding : ∀ c n id f, (s.scope c).bindings.find? n = some id → s.slot id = .function f →
    f.index < s.functions.size ∧ homeOf (s.function f) = c
  field : ∀ o n id f, s.field? o n = some id → s.slot id = .function f →
    f.index < s.functions.size ∧
      ((s.object o).scope = some (homeOf (s.function f)) ∨ homeOf (s.function f) = globals)
  routine : s.Offers (· = .write)
  owned : ∀ o c, (s.object o).scope = some c → c.index < s.scopes.size
  there : globals.index < s.scopes.size
  outermost : (s.scope globals).outer = []

namespace Homed

/-- a later store is as it should be if what it has come to have is -/
theorem of_grows (h : s.Homed globals) (hs : s.InOrder) (hgrows : s.Grows s')
    (hbinding : ∀ c n id, (s'.scope c).bindings.find? n = some id →
      (s.scope c).bindings.find? n = some id ∨
        ∀ f, s'.slot id = .function f → f.index < s'.functions.size ∧ homeOf (s'.function f) = c)
    (hfield : ∀ o n id, s'.field? o n = some id → s.field? o n = some id ∨
      ∀ f, s'.slot id = .function f → f.index < s'.functions.size ∧
        ((s'.object o).scope = some (homeOf (s'.function f)) ∨ homeOf (s'.function f) = globals))
    (hroutine : ∀ f n home r, s'.function f = .host n home r →
      s.function f = .host n home r ∨ r = .write)
    (howned : ∀ o c, (s'.object o).scope = some c →
      (s.object o).scope = some c ∨ c.index < s'.scopes.size) : s'.Homed globals where
  binding c n id f hid hf := by
    rcases hbinding c n id hid with hold | hnew
    · obtain ⟨hlt, hhome⟩ := h.binding c n id f hold (hgrows.gained id f (hs.bound c n id hold) hf)
      exact ⟨hlt.trans_le hgrows.functions, by rwa [hgrows.function f hlt]⟩
    · exact hnew f hf
  field o n id f hid hf := by
    rcases hfield o n id hid with hold | hnew
    · obtain ⟨hlt, hhome⟩ := h.field o n id f hold (hgrows.gained id f (hs.field o n id hold) hf)
      rw [hgrows.function f hlt]
      exact ⟨hlt.trans_le hgrows.functions, hhome.imp_left (hgrows.owned o _)⟩
    · exact hnew f hf
  routine f n home r hf := (hroutine f n home r hf).elim (h.routine f n home r) fun hr => hr
  owned o c hc := (howned o c hc).elim (fun hold => (h.owned o c hold).trans_le hgrows.scopes)
    fun hnew => hnew
  there := h.there.trans_le hgrows.scopes
  outermost := (hgrows.outer globals h.there).trans h.outermost

theorem newSlot (h : s.Homed globals) (hs : s.InOrder) (v : Value) :
    (s.newSlot v).2.Homed globals :=
  h.of_grows hs (s.grows_newSlot v) (fun _ _ _ hid => .inl hid) (fun _ _ _ hid => .inl hid)
    (fun _ _ _ _ hf => .inl hf) fun _ _ hc => .inl hc

theorem setSlot (h : s.Homed globals) (hs : s.InOrder) (id : SlotId) {v : Value}
    (hv : v.NoFunction) : (s.setSlot id v).Homed globals :=
  h.of_grows hs (s.grows_setSlot id hv) (fun _ _ _ hid => .inl hid) (fun _ _ _ hid => .inl hid)
    (fun _ _ _ _ hf => .inl hf) fun _ _ hc => .inl hc

theorem newFunction (h : s.Homed globals) (hs : s.InOrder) {f : Function}
    (hf : ∀ n home r, f = .host n home r → r = .write) : (s.newFunction f).2.Homed globals := by
  refine h.of_grows hs (s.grows_newFunction f) (fun _ _ _ hid => .inl hid)
    (fun _ _ _ hid => .inl hid) (fun g n home r hg => ?_) fun _ _ hc => .inl hc
  rw [function_newFunction] at hg
  split at hg
  · exact .inr (hf n home r hg)
  · exact .inl hg

theorem newObject (h : s.Homed globals) (hs : s.InOrder) (className : String)
    {scope : Option ScopeId} (hscope : ∀ c, scope = some c → c.index < s.scopes.size) :
    (s.newObject ⟨className, .empty, scope⟩).2.Homed globals := by
  refine h.of_grows hs (s.grows_newObject _) (fun _ _ _ hid => .inl hid) (fun o n id hid => .inl ?_)
    (fun _ _ _ _ hf => .inl hf) fun o c hc => ?_
  · rw [field?, object_newObject] at hid
    split at hid
    · cases hid
    · exact hid
  · rw [object_newObject] at hc
    split at hc
    · exact .inr (hscope c hc)
    · exact .inl hc

theorem addField (h : s.Homed globals) (hs : s.InOrder) (o : ObjectId) (n : String) {id : SlotId}
    (hid : ∀ f, s.slot id = .function f → f.index < s.functions.size ∧
      ((s.object o).scope = some (homeOf (s.function f)) ∨ homeOf (s.function f) = globals)) :
    (s.addField o n id).Homed globals := by
  refine h.of_grows hs (s.grows_addField o n id) (fun _ _ _ hid => .inl hid)
    (fun x m id' hfound => ?_) (fun _ _ _ _ hf => .inl hf)
    fun x c hc => .inl ((s.scope_addField o x n id).symm.trans hc)
  rcases field?_addField hfound with hfound | ⟨rfl, rfl⟩
  · exact .inl hfound
  · refine .inr fun f hf => ?_
    rw [s.scope_addField x x n id']
    exact hid f hf

theorem modifyScope (h : s.Homed globals) (hs : s.InOrder) (c : ScopeId) {f : Scope → Scope}
    (hf : ∀ sc, (f sc).outer = sc.outer ∧ (f sc).bindings = sc.bindings) :
    (s.modifyScope c f).Homed globals := by
  refine h.of_grows hs (s.grows_modifyScope c fun sc => (hf sc).1) (fun x n id hid => .inl ?_)
    (fun _ _ _ hid => .inl hid) (fun _ _ _ _ hf => .inl hf) fun _ _ hc => .inl hc
  rwa [scope_modifyScope, apply_ite Scope.bindings, (hf _).2, ite_self] at hid

theorem bind (h : s.Homed globals) (hs : s.InOrder) (c : ScopeId) (n : String) {id : SlotId}
    (hid : ∀ f, s.slot id = .function f →
      f.index < s.functions.size ∧ homeOf (s.function f) = c) : (s.bind c n id).Homed globals := by
  refine h.of_grows hs (s.grows_bind c n id) (fun x m id' hfound => ?_)
    (fun _ _ _ hid => .inl hid) (fun _ _ _ _ hf => .inl hf) fun _ _ hc => .inl hc
  rcases find?_bind hfound with hfound | ⟨rfl, rfl⟩
  · exact .inl hfound
  · exact .inr hid

theorem declare (h : s.Homed globals) (hs : s.InOrder) (c : ScopeId) (n : String) {v : Value}
    (hv : v.NoFunction) : (s.declare c n v).2.Homed globals :=
  (h.newSlot hs v).bind (hs.newSlot v) c n fun f hf => absurd hf ((s.plain_newSlot hv).2 f)

theorem newScope (h : s.Homed globals) (hs : s.InOrder) (outer : List ScopeId) (isExplicit : Bool)
    (name : Option String) : (s.newScope outer isExplicit name).2.Homed globals := by
  refine h.of_grows hs (s.grows_newScope outer isExplicit name) (fun c n id hid => .inl ?_)
    (fun _ _ _ hid => .inl hid) (fun _ _ _ _ hf => .inl hf) fun _ _ hc => .inl hc
  rw [scope_newScope] at hid
  split at hid
  · cases hid
  · exact hid

theorem opened (h : s.Homed globals) (hs : s.InOrder) (d : ClassDecl) (home : ScopeId) :
    (s.opened d home).Homed globals := by
  have hchild := h.newScope hs (home :: (s.scope home).outer) (s.scope home).isExplicit none
  have howned : ∀ c, some (⟨s.scopes.size⟩ : ScopeId) = some c →
      c.index < (s.newChild home none).2.scopes.size := by
    intro c hc
    obtain rfl := Option.some.inj hc
    exact (Nat.lt_succ_self _).trans_eq (Array.size_push _).symm
  have hobject := hchild.newObject (hs.newScope _ _ _) d.name howned
  exact hobject.modifyScope ((hs.newScope _ _ _).newObject _ _) _ fun _ => ⟨rfl, rfl⟩

end Homed

/-! ## furnishing a scope -/

/-- the slot of a function that is declared holds a function of the scope -/
theorem slot_declareFunction (s : Store) (c : ScopeId) (d : FunctionDecl) {f : FunctionId}
    (hf : (s.declareFunction c d).2.slot (s.declareFunction c d).1 = .function f) :
    f.index < (s.declareFunction c d).2.functions.size ∧
      (s.declareFunction c d).2.function f = .script d c := by
  have hslot : (s.declareFunction c d).2.slot (s.declareFunction c d).1
      = .function ⟨s.functions.size⟩ :=
    ((s.newFunction (.script d c)).2.slot_newSlot _ _).trans (if_pos rfl)
  obtain rfl := Value.function.inj (hslot.symm.trans hf)
  refine ⟨(Nat.lt_succ_self _).trans_eq (Array.size_push _).symm, ?_⟩
  exact (s.function_newFunction (.script d c) _).trans (if_pos rfl)

theorem Homed.declareFunction (h : s.Homed globals) (hs : s.InOrder) (c : ScopeId)
    (d : FunctionDecl) : (s.declareFunction c d).2.Homed globals := by
  have hfunction := h.newFunction hs (f := .script d c) fun _ _ _ h => nomatch h
  refine (hfunction.newSlot (hs.newFunction _) _).bind ((hs.newFunction _).newSlot _) c d.name ?_
  intro f hf
  obtain ⟨hlt, heq⟩ := s.slot_declareFunction c d hf
  exact ⟨hlt, congrArg homeOf heq⟩

section

variable {F : FunctionDecl → Prop} {C : ClassDecl → Prop} {c : ScopeId}

theorem Furnish.homed (h : s.Furnish F C c s') (hs : s.InOrder) (hhomed : s.Homed globals) :
    s'.Homed globals := by
  cases h with
  | dim n => exact hhomed.declare hs c n Value.noFunction_empty
  | function _ => exact hhomed.declareFunction hs c _
  | classDecl _ => exact hhomed.modifyScope hs c fun _ => ⟨rfl, rfl⟩
  | explicit => exact hhomed.modifyScope hs c fun _ => ⟨rfl, rfl⟩
  | byRef n harg => exact hhomed.bind hs c n fun f hf => absurd hf (harg.2 f)
  | byValue n harg => exact hhomed.declare hs c n harg.2
  | field n _ =>
    refine (hhomed.declare hs c n Value.noFunction_empty).addField (hs.declare c n _) _ n ?_
    exact fun f hf => absurd hf ((s.plain_newSlot Value.noFunction_empty).2 f)
  | @method d o _ ho =>
    refine (hhomed.declareFunction hs c d).addField ((hs.newFunction _).declare c _ _) o d.name ?_
    intro f hf
    obtain ⟨hlt, heq⟩ := s.slot_declareFunction c d hf
    exact ⟨hlt, .inl (ho.trans (congrArg (fun f => some (homeOf f)) heq.symm))⟩

theorem Furnishes.homed (h : s.Furnishes F C c s') (hs : s.InOrder) (hhomed : s.Homed globals) :
    s'.Homed globals := by
  induction h with
  | refl => exact hhomed
  | tail hsteps hstep ih => exact hstep.homed (Furnishes.inOrder hsteps hs) ih

end

/-! ## quiet steps -/

/-- no scope, class, function or instance is added, and no scope where names have to be declared
gets a binding -/
structure Quiet (s s' : Store) : Prop where
  scopes : s'.scopes.size = s.scopes.size
  functions : s'.functions = s.functions
  owned : ∀ o, (s'.object o).scope = (s.object o).scope
  outer : ∀ c, (s'.scope c).outer = (s.scope c).outer
  classes : ∀ c, (s'.scope c).classes = (s.scope c).classes
  isExplicit : ∀ c, (s'.scope c).isExplicit = (s.scope c).isExplicit
  bindings : ∀ c, (s.scope c).isExplicit = true → (s'.scope c).bindings = (s.scope c).bindings

namespace Quiet

theorem refl (s : Store) : s.Quiet s :=
  ⟨rfl, rfl, fun _ => rfl, fun _ => rfl, fun _ => rfl, fun _ => rfl, fun _ _ => rfl⟩

theorem trans (h : s.Quiet s₁) (h₁ : s₁.Quiet s₂) : s.Quiet s₂ where
  scopes := h₁.scopes.trans h.scopes
  functions := h₁.functions.trans h.functions
  owned o := (h₁.owned o).trans (h.owned o)
  outer c := (h₁.outer c).trans (h.outer c)
  classes c := (h₁.classes c).trans (h.classes c)
  isExplicit c := (h₁.isExplicit c).trans (h.isExplicit c)
  bindings c hc := (h₁.bindings c ((h.isExplicit c).trans hc)).trans (h.bindings c hc)

theorem newSlot (s : Store) (v : Value) : s.Quiet (s.newSlot v).2 := { Quiet.refl s with }

theorem setSlot (s : Store) (id : SlotId) (v : Value) : s.Quiet (s.setSlot id v) :=
  { Quiet.refl s with }

theorem define (s : Store) (o : ObjectId) (n : String) (v : Value) : s.Quiet (s.define o n v).2 :=
  { Quiet.refl s with owned := fun x => scope_addField _ o x n _ }

/-- a variable that is declared on the spot, where that is allowed -/
theorem declare (s : Store) {c : ScopeId} (n : String) (v : Value)
    (hc : (s.scope c).isExplicit = false) : s.Quiet (s.declare c n v).2 := by
  have hread : ∀ x, ((s.declare c n v).2.scope x)
      = if c.index = x.index ∧ x.index < s.scopes.size
        then { s.scope x with bindings := (s.scope x).bindings.insert n (s.newSlot v).1 }
        else s.scope x := (s.newSlot v).2.scope_modifyScope c _
  refine ⟨Array.size_modify, rfl, fun _ => rfl, fun x => ?_, fun x => ?_, fun x => ?_,
    fun x hx => ?_⟩
  · rw [hread, apply_ite Scope.outer, ite_self]
  · rw [hread, apply_ite Scope.classes, ite_self]
  · rw [hread, apply_ite Scope.isExplicit, ite_self]
  · rw [hread, if_neg]
    rintro ⟨hcx, -⟩
    obtain rfl : c = x := congrArg ScopeId.mk hcx
    exact absurd (hc.symm.trans hx) Bool.false_ne_true

end Quiet

end Store

end PageScript
