import Mathlib.Order.Lattice
import PageScript.Proofs.Eval.Steps
import PageScript.Proofs.Store.Reading

/-!
# Scopes inside scopes

A scope is created inside a scope that is already there, and stays there: the scopes around it never
change.  So the way from a scope outward goes from each scope to an older one, and a search for a
name comes to an end by itself.

* `Store.Nested`              the invariant, for a store with at least `n` scopes;
* `Store.tolerates_nested`    what steps do to a store keeps it;
* `Store.Nested.searchFrom`   a search goes on in the scope right around, which is older;
* `Callback.KeepsNesting`     what is asked of the callbacks of a host.
-/

namespace PageScript

open Eval

theorem ScopeId.index_lt_of_le {n n' : Nat} {c : ScopeId} (hle : n ≤ n') (hc : c.index < n) :
    c.index < n' :=
  hc.trans_le hle

namespace Store

/-! ## the scopes around -/

theorem outer_newScope (s : Store) (outer : List ScopeId) (isExplicit : Bool)
    (name : Option String) (id : ScopeId) :
    ((s.newScope outer isExplicit name).2.scope id).outer
      = if id.index = s.scopes.size then outer else (s.scope id).outer := by
  rw [scope_newScope, apply_ite Scope.outer]
  rfl

theorem outer_modifyScope (s : Store) (c : ScopeId) {f : Scope → Scope}
    (hf : ∀ sc, (f sc).outer = sc.outer) (id : ScopeId) :
    ((s.modifyScope c f).scope id).outer = (s.scope id).outer := by
  rw [scope_modifyScope, apply_ite Scope.outer, hf, ite_self]

theorem outer_of_size_le {s : Store} {id : ScopeId} (h : s.scopes.size ≤ id.index) :
    (s.scope id).outer = [] := by
  rw [scope, Array.getElem?_eq_none h]
  rfl

/-! ## nesting -/

/-- a store with at least `n` scopes, where every scope has none around it or lies right inside an
older one, and every function belongs to a scope that is there -/
structure Nested (n : Nat) (s : Store) : Prop where
  size : n ≤ s.scopes.size
  chain : ∀ id, (s.scope id).outer = [] ∨
    ∃ p : ScopeId, p.index < id.index ∧ (s.scope id).outer = p :: (s.scope p).outer
  home : ∀ id, (homeOf (s.function id)).index < s.scopes.size

namespace Nested

variable {n : Nat} {s : Store}

theorem mono {n' : Nat} (h : s.Nested n') (hle : n ≤ n') : s.Nested n :=
  { h with size := hle.trans h.size }

theorem all (h : s.Nested n) : s.Nested s.scopes.size := { h with size := le_rfl }

/-- the scopes around stay, and no function is added -/
theorem of_same {s' : Store} (h : s.Nested n) (hsize : s'.scopes.size = s.scopes.size)
    (houter : ∀ id, (s'.scope id).outer = (s.scope id).outer)
    (hfunctions : s'.functions = s.functions) : s'.Nested n where
  size := hsize ▸ h.size
  chain id := by
    rw [houter]
    refine (h.chain id).imp_right ?_
    rintro ⟨p, hlt, hp⟩
    exact ⟨p, hlt, by rw [hp, houter]⟩
  home id := by
    have hfunction : s'.function id = s.function id := by rw [function, function, hfunctions]
    rw [hsize, hfunction]
    exact h.home id

theorem newSlot (h : s.Nested n) (v : Value) : (s.newSlot v).2.Nested n :=
  h.of_same rfl (fun _ => rfl) rfl

theorem setSlot (h : s.Nested n) (id : SlotId) (v : Value) : (s.setSlot id v).Nested n :=
  h.of_same rfl (fun _ => rfl) rfl

theorem newObject (h : s.Nested n) (o : Object) : (s.newObject o).2.Nested n :=
  h.of_same rfl (fun _ => rfl) rfl

theorem addField (h : s.Nested n) (id : ObjectId) (name : String) (slot : SlotId) :
    (s.addField id name slot).Nested n :=
  h.of_same rfl (fun _ => rfl) rfl

theorem modifyScope (h : s.Nested n) (id : ScopeId) {f : Scope → Scope}
    (hf : ∀ sc, (f sc).outer = sc.outer) : (s.modifyScope id f).Nested n :=
  h.of_same Array.size_modify (outer_modifyScope s id hf) rfl

theorem bind (h : s.Nested n) (id : ScopeId) (name : String) (slot : SlotId) :
    (s.bind id name slot).Nested n :=
  h.modifyScope id fun _ => rfl

theorem declare (h : s.Nested n) (id : ScopeId) (name : String) (v : Value) :
    (s.declare id name v).2.Nested n :=
  (h.newSlot v).bind id name _

theorem newFunction (h : s.Nested n) {f : Function} (hf : (homeOf f).index < n) :
    (s.newFunction f).2.Nested n where
  size := h.size
  chain := h.chain
  home id := by
    rw [function_newFunction]
    split
    · exact hf.trans_le h.size
    · exact h.home id

theorem declareFunction (h : s.Nested n) {id : ScopeId} (hid : id.index < n) (d : FunctionDecl) :
    (s.declareFunction id d).2.Nested n :=
  (h.newFunction (f := .script d id) hid).declare id d.name _

/-! ## new scopes -/

/-- a new scope with a chain that goes on from an older scope -/
theorem newScope (h : s.Nested n) {outer : List ScopeId}
    (houter : outer = [] ∨
      ∃ p : ScopeId, p.index < s.scopes.size ∧ outer = p :: (s.scope p).outer)
    (isExplicit : Bool) (name : Option String) :
    (s.newScope outer isExplicit name).2.Nested (s.scopes.size + 1) := by
  have hold : ∀ {p : ScopeId}, p.index < s.scopes.size →
      ((s.newScope outer isExplicit name).2.scope p).outer = (s.scope p).outer := by
    intro p hp
    rw [outer_newScope, if_neg hp.ne]
  refine ⟨(Array.size_push _).ge, fun id => ?_, fun id => ?_⟩
  · rw [outer_newScope]
    split
    · rename_i hid
      refine houter.imp_right ?_
      rintro ⟨p, hlt, hp⟩
      exact ⟨p, hid ▸ hlt, by rw [hold hlt, ← hp]⟩
    · by_cases hlt : id.index < s.scopes.size
      · refine (h.chain id).imp_right ?_
        rintro ⟨p, hp, houter⟩
        exact ⟨p, hp, by rw [houter, hold (hp.trans hlt)]⟩
      · exact .inl (outer_of_size_le (not_lt.mp hlt))
  · show (homeOf (s.function id)).index < (s.scopes.push _).size
    rw [Array.size_push]
    exact (h.home id).trans (Nat.lt_succ_self _)

theorem newGlobal (h : s.Nested n) (isExplicit : Bool) :
    (s.newGlobal isExplicit).2.Nested (s.scopes.size + 1) :=
  h.newScope (.inl rfl) isExplicit none

theorem newChild (h : s.Nested n) {parent : ScopeId} (hparent : parent.index < n)
    (name : Option String) : (s.newChild parent name).2.Nested (s.scopes.size + 1) :=
  h.newScope (.inr ⟨parent, hparent.trans_le h.size, rfl⟩) _ name

theorem bindParams (byRef : Bool) (id : ScopeId) (ps : List Param) (args : List SlotId)
    (h : s.Nested n) : (bindParams byRef id ps args s).Nested n := by
  induction ps generalizing args s with
  | nil => exact h
  | cons p ps ih =>
    cases args with
    | nil => exact h
    | cons arg args =>
      let passed := if p.byRef.getD byRef then (arg, s) else s.newSlot (s.slot arg)
      have hpassed : passed.2.Nested n := by
        show (if p.byRef.getD byRef then (arg, s) else s.newSlot (s.slot arg)).2.Nested n
        split
        · exact h
        · exact h.newSlot _
      exact ih args (hpassed.bind id p.name passed.1)

/-! ## declarations, instances and activations -/

mutual
theorem hoistStmt {id : ScopeId} (hid : id.index < n) :
    ∀ (stmt : Stmt) {s : Store}, s.Nested n → (stmt.hoist id s).Nested n
  | .dim d, s, h => by
    show (s.hoistDim id d).Nested n
    unfold Store.hoistDim
    split
    · exact h
    · exact h.declare id d.name .empty
  | .function d, _, h => h.declareFunction hid d
  | .class _, _, h => h.modifyScope id fun _ => rfl
  | .optionExplicit _, _, h => h.modifyScope id fun _ => rfl
  | .cond _ _ t e, _, h => hoistBlock hid e (hoistBlock hid t h)
  | .assign .., _, h => h
  | .expr .., _, h => h
  | .exit .., _, h => h

theorem hoistAll {id : ScopeId} (hid : id.index < n) :
    ∀ (stmts : List Stmt) {s : Store}, s.Nested n → (Stmt.hoistAll id s stmts).Nested n
  | [], _, h => h
  | stmt :: stmts, _, h => hoistAll hid stmts (hoistStmt hid stmt h)

theorem hoistBlock {id : ScopeId} (hid : id.index < n) :
    ∀ (b : Block) {s : Store}, s.Nested n → (b.hoist id s).Nested n
  | ⟨_, stmts⟩, _, h => hoistAll hid stmts h
end

theorem foldl {α : Type} {f : Store → α → Store} (hf : ∀ {s} a, s.Nested n → (f s a).Nested n)
    (as : List α) (h : s.Nested n) : (as.foldl f s).Nested n := by
  induction as generalizing s with
  | nil => exact h
  | cons a as ih => exact ih (hf a h)

theorem newInstance (h : s.Nested n) (d : ClassDecl) {home : ScopeId} (hhome : home.index < n) :
    (s.newInstance d home).2.Nested (s.scopes.size + 1) := by
  have hscope := h.newChild hhome none
  have hobject := (hscope.newObject ⟨d.name, .empty, some ⟨s.scopes.size⟩⟩).modifyScope
    ⟨s.scopes.size⟩ (f := fun sc => { sc with owner := some ⟨s.objects.size⟩ }) fun _ => rfl
  refine foldl (fun method h => ?_) d.methods (foldl (fun field h => ?_) d.fields hobject)
  · exact (h.declareFunction (Nat.lt_succ_self s.scopes.size) method).addField _ _ _
  · exact (h.declare _ field.name .empty).addField _ _ _

theorem activate (h : s.Nested n) (byRef : Bool) (d : FunctionDecl) {home : ScopeId}
    (hhome : home.index < n) (args : List SlotId) :
    (activate byRef d home args s).2.Nested (s.scopes.size + 1) :=
  hoistBlock (Nat.lt_succ_self s.scopes.size) d.body
    (bindParams byRef ⟨s.scopes.size⟩ d.params args (h.newChild hhome (resultName d)))

end Nested

theorem nested_first (isExplicit : Bool) : (empty.newGlobal isExplicit).2.Nested 1 where
  size := le_rfl
  chain id := by
    refine .inl ?_
    rw [newGlobal, outer_newScope]
    split <;> rfl
  home _ := Nat.zero_lt_one

/-- what steps in scopes below `n` do to a store keeps its nesting -/
theorem tolerates_nested (n : Nat) :
    Store.Tolerates (fun s s' => s.Nested n → s'.Nested n) fun c => c.index < n where
  refl _ h := h
  trans h h' := h' ∘ h
  newSlot _ v h := h.newSlot v
  setSlot _ id v h := h.setSlot id v
  bind _ id name slot h := h.bind id name slot
  setExplicit _ id _ h := h.modifyScope id fun _ => rfl
  addField _ id name slot h := h.addField id name slot
  newInstance _ d _ hhome h := (h.newInstance d hhome).mono (h.size.trans (Nat.le_succ _))
  hoist _ b _ hc h := h.hoistBlock hc b

/-! ## searches -/

namespace Nested

variable {n : Nat} {s : Store}

theorem lt_of_mem_outer (h : s.Nested n) {id p : ScopeId} (hp : p ∈ (s.scope id).outer) :
    p.index < id.index := by
  obtain ⟨i, hi⟩ : ∃ i, id.index = i := ⟨_, rfl⟩
  induction i using Nat.strong_induction_on generalizing id with
  | _ i ih =>
    rcases h.chain id with hnone | ⟨q, hq, houter⟩
    · rw [hnone] at hp
      cases hp
    · rw [houter] at hp
      rcases List.mem_cons.mp hp with rfl | hp
      · exact hq
      · exact (ih q.index (hi ▸ hq) hp rfl).trans hq

theorem parent_lt (h : s.Nested n) {held : List Ref} {id p : ScopeId}
    (hp : s.parent held id = .ok (some p)) : p.index < id.index := by
  unfold Store.parent at hp
  rcases h.chain id with hnone | ⟨q, hq, houter⟩
  · rw [hnone] at hp
    cases hp
  · rw [houter] at hp
    by_cases halive : s.alive held (.scope q) = true
    · obtain rfl : q = p := by simpa [halive] using hp
      exact hq
    · simp [halive] at hp

/-- a search goes on in the scope right around -/
theorem searchFrom_eq {α : Type} (h : s.Nested n) (held : List Ref) (here : ScopeId → Option α)
    (id : ScopeId) :
    s.searchFrom held here id
      = match here id with
        | some a => .ok (some a)
        | none =>
          match s.parent held id with
          | .ok (some p) => s.searchFrom held here p
          | .ok none => .ok none
          | .error e => .error e := by
  rw [searchFrom]
  cases here id with
  | some a => rfl
  | none =>
    simp only [Store.parent]
    rcases h.chain id with hnone | ⟨p, -, houter⟩
    · rw [hnone]
      rfl
    · rw [houter]
      by_cases halive : s.alive held (.scope p) = true
      · simp only [search, halive, if_true]
        rfl
      · simp only [search, halive]
        rfl

end Nested

/-- what a search finds, it finds in the scope where it starts or in one around it -/
theorem exists_of_search {α : Type} (s : Store) {held : List Ref} {here : ScopeId → Option α}
    {ids : List ScopeId} {a : α} (h : s.search held here ids = .ok (some a)) :
    ∃ c ∈ ids, here c = some a := by
  induction ids with
  | nil => cases h
  | cons c ids ih =>
    rw [search] at h
    split at h
    · split at h
      · rename_i b hb
        obtain rfl : b = a := by simpa using h
        exact ⟨c, by simp, hb⟩
      · obtain ⟨c', hmem, hc'⟩ := ih h
        exact ⟨c', List.mem_cons_of_mem _ hmem, hc'⟩
    · cases h

theorem exists_of_searchFrom {α : Type} (s : Store) {held : List Ref} {here : ScopeId → Option α}
    {id : ScopeId} {a : α} (h : s.searchFrom held here id = .ok (some a)) :
    ∃ c ∈ id :: (s.scope id).outer, here c = some a := by
  unfold searchFrom at h
  split at h
  · rename_i b hb
    obtain rfl : b = a := by simpa using h
    exact ⟨id, by simp, hb⟩
  · obtain ⟨c, hmem, hc⟩ := s.exists_of_search h
    exact ⟨c, List.mem_cons_of_mem _ hmem, hc⟩

/-- a class is declared in the scope where it is looked for or in an older one -/
theorem Nested.findClass_le {n : Nat} {s : Store} (h : s.Nested n) {held : List Ref} {name : String}
    {id home : ScopeId} {d : ClassDecl} (hfound : s.findClass held name id = .ok (some (d, home))) :
    home.index ≤ id.index := by
  obtain ⟨c, hmem, hc⟩ := s.exists_of_searchFrom hfound
  obtain rfl : c = home := by
    obtain ⟨d', -, heq⟩ := Option.map_eq_some_iff.mp hc
    exact congrArg Prod.snd heq
  rcases List.mem_cons.mp hmem with rfl | hmem
  · exact le_rfl
  · exact (h.lt_of_mem_outer hmem).le

end Store

/-! ## callbacks -/

/-- a callback of a host that opens scopes inside scopes that are there, and moves none -/
def Callback.KeepsNesting (f : Callback) : Prop :=
  ∀ ⦃n s⦄ (held : List Ref) ⦃home : ScopeId⦄ (args : List SlotId), home.index < n →
    Store.Nested n s → (f held home args s).2.Nested n

def Env.KeepsNesting (env : Env) : Prop := ∀ f ∈ env.callbacks, f.KeepsNesting

theorem Env.KeepsNesting.callback {env : Env} (h : env.KeepsNesting) (index : Nat) :
    (env.callback index).KeepsNesting := by
  unfold Env.callback
  cases hf : env.callbacks[index]? with
  | none => exact fun _ _ _ _ _ _ hs => hs
  | some f => exact h f (Array.mem_of_getElem? hf)

end PageScript
