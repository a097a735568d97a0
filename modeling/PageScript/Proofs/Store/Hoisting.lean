import PageScript.Proofs.Store.Building

/-!
# The outcome of hoisting

Hoisting takes the declarations of a block one after the other.  What has come of them in the end
does not depend on how they are mixed: under every name there is the last function of that name; if
there is none, what was there before; and only if there was nothing, a variable.

* `Stmt.ownDeclaration`, `Block.declarations`   the declarations of a block, in the order of the
                                                text;
* `Store.Hoisted`                               the outcome of a list of declarations;
* `Store.hoisted_dim`, `Store.hoisted_function`, `Store.hoisted_class`, `Store.hoisted_explicit`
                                                the outcome of one declaration;
* `Store.Hoisted.append`                        declarations after others;
* `Store.hoist_outcome`                         the outcome of hoisting a block.
-/

namespace PageScript

/-! ## the declarations of a block -/

/-- a statement that declares something in the scope around it -/
def Stmt.ownDeclaration : Stmt → List Stmt
  | .dim decl => [.dim decl]
  | .function decl => [.function decl]
  | .class decl => [.class decl]
  | .optionExplicit loc => [.optionExplicit loc]
  | _ => []

/-- the declarations of a block that take effect in its scope, in the order of the text -/
def Block.declarations (b : Block) : List Stmt := b.declared Stmt.ownDeclaration

def Stmt.functionNamed? (k : String) : Stmt → Option FunctionDecl
  | .function decl => if Text.fold k = Text.fold decl.name then some decl else none
  | _ => none

def Stmt.classNamed? (k : String) : Stmt → Option ClassDecl
  | .class decl => if Text.fold k = Text.fold decl.name then some decl else none
  | _ => none

def Stmt.isDimOf (k : String) : Stmt → Bool
  | .dim decl => Text.fold k = Text.fold decl.name
  | _ => false

def Stmt.isOptionExplicit : Stmt → Bool
  | .optionExplicit _ => true
  | _ => false

/-- the last of the things that are looked for -/
def last? {α : Type} (pick : Stmt → Option α) (ds : List Stmt) : Option α :=
  ds.reverse.findSome? pick

theorem last?_append {α : Type} (pick : Stmt → Option α) (ds es : List Stmt) :
    last? pick (ds ++ es) = (last? pick es).or (last? pick ds) := by
  rw [last?, List.reverse_append, List.findSome?_append, last?, last?]

namespace Store

variable {s s' s₁ s₂ : Store} {c : ScopeId} {ds es : List Stmt}

/-! ## changes in one scope -/

/-- all that changes is which names, classes and option a scope has: what is in the store stays as
it is, and the other scopes stay as they are -/
structure ChangesOnly (c : ScopeId) (s s' : Store) : Prop where
  scopes : s'.scopes.size = s.scopes.size
  elsewhere : ∀ x, x ≠ c → s'.scope x = s.scope x
  here : ∃ bindings classes isExplicit, s'.scope c = { s.scope c with bindings, classes, isExplicit }
  slots : s.slots.size ≤ s'.slots.size
  slot : ∀ id, id.index < s.slots.size → s'.slot id = s.slot id
  functions : s.functions.size ≤ s'.functions.size
  function : ∀ f, f.index < s.functions.size → s'.function f = s.function f
  objects : s'.objects = s.objects

namespace ChangesOnly

theorem refl (c : ScopeId) (s : Store) : ChangesOnly c s s :=
  ⟨rfl, fun _ _ => rfl, ⟨_, _, _, rfl⟩, le_rfl, fun _ _ => rfl, le_rfl, fun _ _ => rfl, rfl⟩

theorem trans (h : ChangesOnly c s s₁) (h₁ : ChangesOnly c s₁ s₂) : ChangesOnly c s s₂ where
  scopes := h₁.scopes.trans h.scopes
  elsewhere x hx := (h₁.elsewhere x hx).trans (h.elsewhere x hx)
  here := by
    obtain ⟨bindings, classes, isExplicit, heq⟩ := h.here
    obtain ⟨bindings', classes', isExplicit', heq'⟩ := h₁.here
    exact ⟨bindings', classes', isExplicit', by rw [heq', heq]⟩
  slots := h.slots.trans h₁.slots
  slot id hid := (h₁.slot id (hid.trans_le h.slots)).trans (h.slot id hid)
  functions := h.functions.trans h₁.functions
  function f hf := (h₁.function f (hf.trans_le h.functions)).trans (h.function f hf)
  objects := h₁.objects.trans h.objects

theorem newSlot (c : ScopeId) (s : Store) (v : Value) : ChangesOnly c s (s.newSlot v).2 :=
  { refl c s with
    slots := (s.grows_newSlot v).slots
    slot := fun id hid => by rw [slot_newSlot, if_neg hid.ne] }

theorem newFunction (c : ScopeId) (s : Store) (f : Function) :
    ChangesOnly c s (s.newFunction f).2 :=
  { refl c s with
    functions := (s.grows_newFunction f).functions
    function := (s.grows_newFunction f).function }

theorem modifyScope (s : Store) {f : Scope → Scope}
    (hf : ∀ sc, ∃ bindings classes isExplicit, f sc = { sc with bindings, classes, isExplicit }) :
    ChangesOnly c s (s.modifyScope c f) :=
  { refl c s with
    scopes := Array.size_modify
    elsewhere := by
      intro x hx
      rw [scope_modifyScope, if_neg]
      exact fun h => hx (congrArg ScopeId.mk h.1).symm
    here := by
      rw [scope_modifyScope]
      split
      · exact hf _
      · exact ⟨_, _, _, rfl⟩ }

theorem bind (c : ScopeId) (s : Store) (n : String) (id : SlotId) :
    ChangesOnly c s (s.bind c n id) :=
  modifyScope s fun _ => ⟨_, _, _, rfl⟩

theorem declare (c : ScopeId) (s : Store) (n : String) (v : Value) :
    ChangesOnly c s (s.declare c n v).2 :=
  (newSlot c s v).trans (bind c _ n _)

theorem declareFunction (c : ScopeId) (s : Store) (d : FunctionDecl) :
    ChangesOnly c s (s.declareFunction c d).2 :=
  (newFunction c s _).trans (declare c _ d.name _)

theorem there (h : ChangesOnly c s s') (hc : c.index < s.scopes.size) :
    c.index < s'.scopes.size := by
  rw [h.scopes]
  exact hc

end ChangesOnly

/-! ## the outcome under one name -/

/-- a name leads to a slot that was not there before -/
def BindsNew (c : ScopeId) (k : String) (s s' : Store) (v : Value) : Prop :=
  ∃ id : SlotId, (s'.scope c).bindings.find? k = some id
    ∧ s.slots.size ≤ id.index ∧ id.index < s'.slots.size ∧ s'.slot id = v

/-- what a name stands for in a scope after declarations: the last function of the name, closed over
the scope, in a new slot; without one, what it stood for; without that, a new variable, if there is
a declaration of one -/
def NameAfter (c : ScopeId) (ds : List Stmt) (s s' : Store) (k : String) : Prop :=
  match last? (·.functionNamed? k) ds with
  | some decl => ∃ f : FunctionId, f.index < s'.functions.size ∧ s'.function f = .script decl c
      ∧ BindsNew c k s s' (.function f)
  | none =>
    match (s.scope c).bindings.find? k with
    | some id => (s'.scope c).bindings.find? k = some id
    | none =>
      if ds.any (·.isDimOf k) then BindsNew c k s s' .empty
      else (s'.scope c).bindings.find? k = none

/-- a name of which no function is declared stands for what it stood for -/
theorem nameAfter_of_bound {k : String} {id : SlotId} (hf : last? (·.functionNamed? k) ds = none)
    (hid : (s.scope c).bindings.find? k = some id)
    (hid' : (s'.scope c).bindings.find? k = some id) : NameAfter c ds s s' k := by
  unfold NameAfter
  rw [hf, hid]
  exact hid'

/-- a name that is not declared is left alone -/
theorem nameAfter_of_undeclared {k : String} (hf : last? (·.functionNamed? k) ds = none)
    (hd : ds.any (·.isDimOf k) = false)
    (hsame : (s'.scope c).bindings.find? k = (s.scope c).bindings.find? k) :
    NameAfter c ds s s' k := by
  cases hid : (s.scope c).bindings.find? k with
  | some id => exact nameAfter_of_bound hf hid (hsame.trans hid)
  | none =>
    unfold NameAfter
    rw [hf, hid, hd]
    exact hsame.trans hid

/-- a slot that was new stays what it was as long as its name is left alone -/
theorem BindsNew.trans {k : String} {v : Value} (h : BindsNew c k s s₁ v)
    (h₁ : ChangesOnly c s₁ s₂)
    (hsame : (s₂.scope c).bindings.find? k = (s₁.scope c).bindings.find? k) :
    BindsNew c k s s₂ v := by
  obtain ⟨id, hid, hnew, hlt, hv⟩ := h
  exact ⟨id, hsame.trans hid, hnew, hlt.trans_le h₁.slots, (h₁.slot id hlt).trans hv⟩

/-- a slot that is new in the end was not there at the start -/
theorem BindsNew.after {k : String} {v : Value} (h : BindsNew c k s₁ s₂ v)
    (hslots : s.slots.size ≤ s₁.slots.size) : BindsNew c k s s₂ v := by
  obtain ⟨id, hid, hnew, hlt, hv⟩ := h
  exact ⟨id, hid, hslots.trans hnew, hlt, hv⟩

theorem NameAfter.append {k : String} (hs : ChangesOnly c s s₁) (hs₁ : ChangesOnly c s₁ s₂)
    (h : NameAfter c ds s s₁ k) (h₁ : NameAfter c es s₁ s₂ k) :
    NameAfter c (ds ++ es) s s₂ k := by
  unfold NameAfter at h h₁ ⊢
  rw [last?_append, List.any_append]
  cases hes : last? (·.functionNamed? k) es with
  | some decl =>
    -- a later function replaces whatever was there
    rw [hes] at h₁
    obtain ⟨f, hlt, hf, hnew⟩ := h₁
    exact ⟨f, hlt, hf, hnew.after hs.slots⟩
  | none =>
    rw [hes] at h₁
    rw [Option.none_or]
    cases hds : last? (·.functionNamed? k) ds with
    | some decl =>
      rw [hds] at h
      obtain ⟨f, hlt, hf, hnew⟩ := h
      have hsame : (s₂.scope c).bindings.find? k = (s₁.scope c).bindings.find? k := by
        obtain ⟨id, hid, -⟩ := hnew
        rw [hid] at h₁ ⊢
        exact h₁
      exact ⟨f, hlt.trans_le hs₁.functions, (hs₁.function f hlt).trans hf, hnew.trans hs₁ hsame⟩
    | none =>
      rw [hds] at h
      cases hbound : (s.scope c).bindings.find? k with
      | some id =>
        simp only [hbound] at h
        simpa only [h] using h₁
      | none =>
        simp only [hbound] at h
        cases hdim : ds.any (·.isDimOf k) with
        | true =>
          -- a variable that is there already stays the one it is
          simp only [hdim, if_true, Bool.true_or] at h ⊢
          have hsame : (s₂.scope c).bindings.find? k = (s₁.scope c).bindings.find? k := by
            obtain ⟨id, hid, -⟩ := h
            simpa only [hid] using h₁
          exact h.trans hs₁ hsame
        | false =>
          simp only [hdim, Bool.false_eq_true, if_false, Bool.false_or] at h ⊢
          simp only [h] at h₁
          split at h₁
          · rename_i hdim'
            rw [if_pos hdim']
            exact h₁.after hs.slots
          · rename_i hdim'
            rwa [if_neg hdim']

/-! ## the outcome of declarations -/

/-- the outcome of a list of declarations in a scope -/
structure Hoisted (c : ScopeId) (ds : List Stmt) (s s' : Store) : Prop where
  only : ChangesOnly c s s'
  name : ∀ k, NameAfter c ds s s' k
  classes : ∀ k, (s'.scope c).classes.find? k
    = (last? (·.classNamed? k) ds).or ((s.scope c).classes.find? k)
  isExplicit : (s'.scope c).isExplicit = ((s.scope c).isExplicit || ds.any (·.isOptionExplicit))

theorem Hoisted.refl (c : ScopeId) (s : Store) : Hoisted c [] s s where
  only := .refl c s
  name _ := nameAfter_of_undeclared rfl rfl rfl
  classes _ := rfl
  isExplicit := (Bool.or_false _).symm

/-- **Declarations after others.** -/
theorem Hoisted.append (h : Hoisted c ds s s₁) (h₁ : Hoisted c es s₁ s₂) :
    Hoisted c (ds ++ es) s s₂ where
  only := h.only.trans h₁.only
  name k := (h.name k).append h.only h₁.only (h₁.name k)
  classes k := by rw [last?_append, h₁.classes, h.classes, Option.or_assoc]
  isExplicit := by rw [List.any_append, h₁.isExplicit, h.isExplicit, Bool.or_assoc]

/-! ### one declaration -/

theorem scope_declare (hc : c.index < s.scopes.size) (n : String) (v : Value) :
    (s.declare c n v).2.scope c
      = { s.scope c with bindings := (s.scope c).bindings.insert n ⟨s.slots.size⟩ } :=
  (scope_modifyScope (s.newSlot v).2 c _ c).trans (if_pos ⟨rfl, hc⟩)

/-- a name stands for what was declared under it, and every other name for what it stood for -/
theorem find?_declare (hc : c.index < s.scopes.size) (n k : String) (v : Value) :
    ((s.declare c n v).2.scope c).bindings.find? k
      = if Text.fold k = Text.fold n then some ⟨s.slots.size⟩
        else (s.scope c).bindings.find? k := by
  rw [scope_declare hc, NameTable.find?_insert]

theorem bindsNew_declare (hc : c.index < s.scopes.size) {n k : String} (v : Value)
    (hk : Text.fold k = Text.fold n) : BindsNew c k s (s.declare c n v).2 v := by
  refine ⟨⟨s.slots.size⟩, ?_, le_rfl, s.lt_newSlot v, ?_⟩
  · rw [find?_declare hc, if_pos hk]
  · exact (s.slot_newSlot v _).trans (if_pos rfl)

theorem hoisted_dim (hc : c.index < s.scopes.size) (d : Dim) :
    Hoisted c [.dim d] s (s.hoistDim c d) := by
  unfold hoistDim
  cases hbound : (s.scope c).bindings.find? d.name with
  | some id =>
    refine { Hoisted.refl c s with name := fun k => ?_ }
    by_cases hk : Text.fold k = Text.fold d.name
    · have hid : (s.scope c).bindings.find? k = some id := by
        rw [← hbound, NameTable.find?, NameTable.find?, hk]
      exact nameAfter_of_bound rfl hid hid
    · exact nameAfter_of_undeclared rfl (by simpa [Stmt.isDimOf] using hk) rfl
  | none =>
    refine ⟨.declare c s d.name .empty, fun k => ?_, fun k => ?_, ?_⟩
    · by_cases hk : Text.fold k = Text.fold d.name
      · have hfree : (s.scope c).bindings.find? k = none := by
          rw [← hbound, NameTable.find?, NameTable.find?, hk]
        have hdim : ([Stmt.dim d]).any (·.isDimOf k) = true := by simpa [Stmt.isDimOf] using hk
        show match (s.scope c).bindings.find? k with
          | some id => ((s.declare c d.name .empty).2.scope c).bindings.find? k = some id
          | none => if _ then BindsNew c k s (s.declare c d.name .empty).2 .empty else _
        rw [hfree]
        exact (if_pos hdim).mpr (bindsNew_declare hc .empty hk)
      · refine nameAfter_of_undeclared rfl (by simpa [Stmt.isDimOf] using hk) ?_
        rw [find?_declare hc, if_neg hk]
    · rw [scope_declare hc]
      rfl
    · rw [scope_declare hc]
      exact (Bool.or_false _).symm

theorem hoisted_function (hc : c.index < s.scopes.size) (d : FunctionDecl) :
    Hoisted c [.function d] s (s.declareFunction c d).2 := by
  have hscope := scope_declare (s := (s.newFunction (.script d c)).2) hc d.name
    (.function ⟨s.functions.size⟩)
  have hbind := find?_declare (s := (s.newFunction (.script d c)).2) hc d.name
  refine ⟨.declareFunction c s d, fun k => ?_, fun k => ?_, ?_⟩
  · by_cases hk : Text.fold k = Text.fold d.name
    · have hlast : last? (·.functionNamed? k) [.function d] = some d := by
        simp [last?, Stmt.functionNamed?, hk]
      unfold NameAfter
      rw [hlast]
      refine ⟨⟨s.functions.size⟩, ?_, ?_, ?_⟩
      · exact (Nat.lt_succ_self _).trans_eq (Array.size_push _).symm
      · exact (s.function_newFunction (.script d c) _).trans (if_pos rfl)
      · exact bindsNew_declare (s := (s.newFunction (.script d c)).2) hc _ hk
    · refine nameAfter_of_undeclared ?_ rfl ?_
      · simp [last?, Stmt.functionNamed?, hk]
      · exact (hbind k _).trans (if_neg hk)
  · exact congrArg (·.classes.find? k) hscope
  · exact (congrArg Scope.isExplicit hscope).trans (Bool.or_false _).symm

theorem hoisted_class (hc : c.index < s.scopes.size) (d : ClassDecl) :
    Hoisted c [.class d] s (s.declareClass c d) := by
  have hscope : (s.declareClass c d).scope c
      = { s.scope c with classes := (s.scope c).classes.insert d.name d } :=
    (scope_modifyScope s c _ c).trans (if_pos ⟨rfl, hc⟩)
  refine ⟨.modifyScope s fun _ => ⟨_, _, _, rfl⟩, fun k => ?_, fun k => ?_, ?_⟩
  · exact nameAfter_of_undeclared rfl rfl (congrArg (·.bindings.find? k) hscope)
  · rw [hscope, NameTable.find?_insert]
    by_cases hk : Text.fold k = Text.fold d.name
    · simp [last?, Stmt.classNamed?, hk]
    · simp [last?, Stmt.classNamed?, hk]
  · exact (congrArg Scope.isExplicit hscope).trans (Bool.or_false _).symm

theorem hoisted_explicit (hc : c.index < s.scopes.size) (loc : Location) :
    Hoisted c [.optionExplicit loc] s (s.setExplicit c true) := by
  have hscope : (s.setExplicit c true).scope c = { s.scope c with isExplicit := true } :=
    (scope_modifyScope s c _ c).trans (if_pos ⟨rfl, hc⟩)
  refine ⟨.modifyScope s fun _ => ⟨_, _, _, rfl⟩, fun k => ?_, fun k => ?_, ?_⟩
  · exact nameAfter_of_undeclared rfl rfl (congrArg (·.bindings.find? k) hscope)
  · exact congrArg (·.classes.find? k) hscope
  · exact (congrArg Scope.isExplicit hscope).trans (Bool.or_true _).symm

/-! ### the declarations of a block -/

mutual
theorem hoisted_stmt : ∀ (stmt : Stmt) {s : Store}, c.index < s.scopes.size →
    Hoisted c (stmt.declared Stmt.ownDeclaration) s (stmt.hoist c s)
  | .dim d, _, hc => hoisted_dim hc d
  | .function d, _, hc => hoisted_function hc d
  | .class d, _, hc => hoisted_class hc d
  | .optionExplicit loc, _, hc => hoisted_explicit hc loc
  | .cond _ _ t e, _, hc =>
    have ht := hoisted_block t hc
    ht.append (hoisted_block e (ht.only.there hc))
  | .assign .., s, _ => .refl c s
  | .expr .., s, _ => .refl c s
  | .exit .., s, _ => .refl c s

theorem hoisted_all : ∀ (stmts : List Stmt) {s : Store}, c.index < s.scopes.size →
    Hoisted c (Stmt.declaredAll Stmt.ownDeclaration stmts) s (Stmt.hoistAll c s stmts)
  | [], s, _ => .refl c s
  | stmt :: stmts, _, hc =>
    have hstmt := hoisted_stmt stmt hc
    hstmt.append (hoisted_all stmts (hstmt.only.there hc))

theorem hoisted_block : ∀ (b : Block) {s : Store}, c.index < s.scopes.size →
    Hoisted c b.declarations s (b.hoist c s)
  | ⟨_, stmts⟩, _, hc => hoisted_all stmts hc
end

/-! ## new slots are apart -/

/-- bindings lead to slots that are there, and no new slot is bound to two names -/
structure Apart (n : Nat) (c : ScopeId) (s : Store) : Prop where
  there : c.index < s.scopes.size
  grown : n ≤ s.slots.size
  bound : ∀ k id, (s.scope c).bindings.find? k = some id → id.index < s.slots.size
  apart : ∀ k k' id, (s.scope c).bindings.find? k = some id →
    (s.scope c).bindings.find? k' = some id → n ≤ id.index → Text.fold k = Text.fold k'

theorem Apart.declare {n : Nat} (h : Apart n c s) (name : String) (v : Value) :
    Apart n c (s.declare c name v).2 := by
  have hfind := fun k => find?_declare h.there name k v
  have hlt : s.slots.size < (s.declare c name v).2.slots.size := s.lt_newSlot v
  have hsize : (s.declare c name v).2.scopes.size = s.scopes.size :=
    (ChangesOnly.declare c s name v).scopes
  refine ⟨hsize ▸ h.there, h.grown.trans hlt.le, fun k id hid => ?_, fun k k' id hid hid' hn => ?_⟩
  · rw [hfind] at hid
    split at hid
    · exact Option.some.inj hid ▸ hlt
    · exact (h.bound k id hid).trans hlt
  · rw [hfind] at hid hid'
    -- the slot is new if it is the one of the declaration, and bound to nothing else then
    split at hid <;> split at hid'
    · rename_i hk hk'
      rw [hk, hk']
    · obtain rfl := Option.some.inj hid
      exact absurd (h.bound k' _ hid') (lt_irrefl _)
    · obtain rfl := Option.some.inj hid'
      exact absurd (h.bound k _ hid) (lt_irrefl _)
    · exact h.apart k k' id hid hid' hn

theorem Apart.modifyScope {n : Nat} (h : Apart n c s) {f : Scope → Scope}
    (hf : ∀ sc, (f sc).bindings = sc.bindings) : Apart n c (s.modifyScope c f) := by
  have hbindings : ((s.modifyScope c f).scope c).bindings = (s.scope c).bindings := by
    rw [scope_modifyScope, apply_ite Scope.bindings, hf, ite_self]
  refine ⟨?_, h.grown, ?_, ?_⟩
  · rw [Store.modifyScope, Array.size_modify]
    exact h.there
  · rw [hbindings]
    exact h.bound
  · rw [hbindings]
    exact h.apart

theorem apart_declaring (n : Nat) (c : ScopeId) : Declaring (Apart n c) c where
  dim _ name h := h.declare name .empty
  function s d h :=
    Apart.declare (s := (s.newFunction (.script d c)).2)
      ⟨h.there, h.grown, h.bound, h.apart⟩ d.name _
  classDecl _ _ h := h.modifyScope fun _ => rfl
  explicit _ h := h.modifyScope fun _ => rfl

/-- different names do not share a new slot -/
theorem hoist_apart (hc : c.index < s.scopes.size)
    (hbound : ∀ k id, (s.scope c).bindings.find? k = some id → id.index < s.slots.size)
    (b : Block) : Apart s.slots.size c (b.hoist c s) := by
  refine hoist_induct (apart_declaring _ c) b ⟨hc, le_rfl, hbound, fun k _ id hid _ hn => ?_⟩
  exact absurd (hbound k id hid) (not_lt.mpr hn)

/-! ## the outcome of hoisting -/

/-- **Hoisting has the outcome of the declarations of the block**, and if bindings led to slots that
were there, different names do not share a new slot. -/
theorem hoist_outcome (hc : c.index < s.scopes.size) (b : Block) :
    Hoisted c b.declarations s (b.hoist c s)
      ∧ ((∀ k id, (s.scope c).bindings.find? k = some id → id.index < s.slots.size) →
        ∀ k k' id, ((b.hoist c s).scope c).bindings.find? k = some id →
          ((b.hoist c s).scope c).bindings.find? k' = some id → s.slots.size ≤ id.index →
          Text.fold k = Text.fold k') :=
  ⟨hoisted_block b hc, fun hbound => (hoist_apart hc hbound b).apart⟩

/-- a scope in which `n` stands for the slot of the scope around it, as a parameter by reference -/
def sharingScope : Store :=
  let s := (empty.newGlobal false).2
  let s := (s.declare ⟨0⟩ "n" (.integer 5)).2
  (s.newChild ⟨0⟩ none).2.bind ⟨1⟩ "n" ⟨1⟩

/-- `dim n`, then a condition with a function `n` in one branch and a function `N` in the other,
then `dim k` -/
def mixedDeclarations : Block :=
  ⟨default, [.dim ⟨default, "n"⟩,
    .cond default (.literal default (.boolean true))
      ⟨default, [.function ⟨default, .function, "n", [], ⟨default, []⟩⟩]⟩
      ⟨default, [.function ⟨default, .sub, "N", [], ⟨default, []⟩⟩, .optionExplicit default]⟩,
    .dim ⟨default, "k"⟩]⟩

/-- the last function is bound in a new slot, and the shared one keeps its value -/
theorem hoist_outcome_sharingScope :
    (1 : Nat) < sharingScope.scopes.size
      ∧ (∃ f id, (mixedDeclarations.hoist ⟨1⟩ sharingScope).function f
            = .script ⟨default, .sub, "N", [], ⟨default, []⟩⟩ ⟨1⟩
          ∧ ((mixedDeclarations.hoist ⟨1⟩ sharingScope).scope ⟨1⟩).bindings.find? "n" = some id
          ∧ sharingScope.slots.size ≤ id.index
          ∧ (mixedDeclarations.hoist ⟨1⟩ sharingScope).slot id = .function f)
      ∧ BindsNew ⟨1⟩ "K" sharingScope (mixedDeclarations.hoist ⟨1⟩ sharingScope) .empty
      ∧ ((mixedDeclarations.hoist ⟨1⟩ sharingScope).scope ⟨1⟩).isExplicit = true
      ∧ (mixedDeclarations.hoist ⟨1⟩ sharingScope).slot ⟨1⟩ = .integer 5 := by
  have hc : (1 : Nat) < sharingScope.scopes.size := by decide
  obtain ⟨hhoisted, -⟩ := hoist_outcome (c := ⟨1⟩) hc mixedDeclarations
  obtain ⟨f, -, hf, id, hid, hnew, -, hslot⟩ := hhoisted.name "n"
  refine ⟨hc, ⟨f, id, hf, hid, hnew, hslot⟩, hhoisted.name "K", hhoisted.isExplicit, ?_⟩
  exact hhoisted.only.slot ⟨1⟩ (by decide)

end Store

end PageScript
