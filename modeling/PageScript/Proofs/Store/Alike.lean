import PageScript.Proofs.Eval.Simulation
import PageScript.Proofs.Store.Reading

/-!
# Stores that are alike

Two stores are alike when they hold the same things under the same identities, and differ only in
how names were spelled and where declarations stand.  Tables keep names in their folded form, so the
bindings of scopes and the members of objects are simply equal; classes and functions are declared
alike, and objects remember corresponding names of their classes.

* `Likeness.spelled`   names correspond up to the case of letters;
* `Store.Alike`        stores that are alike;
* `Store.Alike.alive`, `Store.Alike.find`, `Store.Alike.findClass`   questions have corresponding
                       answers;
* `Store.Alike.hoist`, `Store.Alike.newInstance`, `Store.Alike.activate`   corresponding changes
                       lead to stores that are alike.
-/

namespace PageScript

open Eval

/-! ## spellings -/

theorem Text.fold_append (a b : String) : Text.fold (a ++ b) = Text.fold a ++ Text.fold b := by
  apply String.toList_injective
  simp

/-- names correspond up to the case of letters, and locations as `L` says -/
def Likeness.spelled (L : Location → Location → Prop) : Likeness where
  names a b := Text.fold a = Text.fold b
  locs := L
  names_refl _ := rfl
  names_append ha hb := by rw [Text.fold_append, Text.fold_append, ha, hb]

namespace NameTable

variable {α : Type}

theorem find?_congr (t : NameTable α) {n n' : String} (hn : Text.fold n = Text.fold n') :
    t.find? n = t.find? n' := by
  rw [find?, find?, hn]

theorem insert_congr (t : NameTable α) {n n' : String} (hn : Text.fold n = Text.fold n') (a : α) :
    t.insert n a = t.insert n' a := by
  rw [insert, insert, hn]

/-- tables with the same names, for things that are related -/
def Rel (R : α → α → Prop) (t t' : NameTable α) : Prop :=
  List.Forall₂ (fun e e' => e.1 = e'.1 ∧ R e.2 e'.2) t.entries t'.entries

theorem Rel.find? {R : α → α → Prop} {t t' : NameTable α} (h : t.Rel R t') {n n' : String}
    (hn : Text.fold n = Text.fold n') : Option.Rel R (t.find? n) (t'.find? n') := by
  unfold NameTable.find? Rel at *
  rw [hn]
  generalize t.entries = es at h ⊢
  generalize t'.entries = es' at h ⊢
  induction h with
  | nil => exact .none
  | @cons e e' es es' he _ ih =>
    obtain ⟨key, a⟩ := e
    obtain ⟨key', a'⟩ := e'
    obtain ⟨hkey, ha⟩ := he
    obtain rfl : key = key' := hkey
    simp only [List.lookup_cons]
    cases Text.fold n' == key with
    | true => exact .some ha
    | false => exact ih

theorem Rel.insert {R : α → α → Prop} {t t' : NameTable α} (h : t.Rel R t') {n n' : String}
    (hn : Text.fold n = Text.fold n') {a a' : α} (ha : R a a') :
    (t.insert n a).Rel R (t'.insert n' a') := by
  unfold NameTable.insert
  rw [hn]
  refine .cons ⟨rfl, ha⟩ (List.rel_filter ?_ h)
  rintro e e' ⟨he, -⟩
  show (e.1 != _) = true ↔ (e'.1 != _) = true
  rw [he]

end NameTable

/-- two results, both successes with related values or both failures with related causes -/
inductive Matches {ε α : Type} (E : ε → ε → Prop) (V : α → α → Prop) :
    Except ε α → Except ε α → Prop
  | ok {a b} : V a b → Matches E V (.ok a) (.ok b)
  | error {e e'} : E e e' → Matches E V (.error e) (.error e')

theorem Matches.imp {ε α : Type} {E E' : ε → ε → Prop} {V : α → α → Prop} {x y : Except ε α}
    (h : Matches E V x y) (hE : ∀ e e', E e e' → E' e e') : Matches E' V x y := by
  cases h with
  | ok hab => exact .ok hab
  | error he => exact .error (hE _ _ he)

theorem Matches.eq {ε α : Type} {x y : Except ε (Option α)}
    (h : Matches Eq (Option.Rel Eq) x y) : x = y := by
  cases h with
  | error he => rw [he]
  | ok h =>
    cases h with
    | none => rfl
    | some ha => rw [ha]

/-! ## stores -/

/-- scopes with the same bindings, and classes that are declared alike -/
structure Scope.Alike (k : Likeness) (c c' : Scope) : Prop where
  outer : c.outer = c'.outer
  bindings : c.bindings = c'.bindings
  classes : c.classes.Rel (ClassDecl.Alike k) c'.classes
  isExplicit : c.isExplicit = c'.isExplicit
  result : c.result = c'.result
  functionName : c.functionName = c'.functionName
  owner : c.owner = c'.owner

structure Object.Alike (k : Likeness) (o o' : Object) : Prop where
  className : k.names o.className o'.className
  fields : o.fields = o'.fields
  scope : o.scope = o'.scope

/-- stores with the same things, except for the spelling of names and the places of declarations;
routines of the host only write to the page -/
structure Store.Alike (k : Likeness) (s s' : Store) : Prop where
  slots : s.slots = s'.slots
  scopes : s.scopes.size = s'.scopes.size
  objects : s.objects.size = s'.objects.size
  functions : s.functions.size = s'.functions.size
  scope : ∀ id, (s.scope id).Alike k (s'.scope id)
  object : ∀ id, (s.object id).Alike k (s'.object id)
  function : ∀ id, (s.function id).Alike k (s'.function id)
  routine : ∀ id, (s.function id).Uses (· = .write)

theorem Store.alike_empty (k : Likeness) : Store.empty.Alike k .empty where
  slots := rfl
  scopes := rfl
  objects := rfl
  functions := rfl
  scope _ := ⟨rfl, rfl, .nil, rfl, rfl, rfl, rfl⟩
  object _ := ⟨k.names_refl _, rfl, rfl⟩
  function _ := .host (k.names_refl _)
  routine _ := rfl

/-! ## searches -/

section

variable {α : Type} {R : α → α → Prop} {s s' : Store} {held held' : List Ref}
  {here here' : ScopeId → Option α}
  (halive : ∀ id, s.alive held (.scope id) = s'.alive held' (.scope id))
  (hhere : ∀ id, Option.Rel R (here id) (here' id))

include halive hhere

/-- searches where the same scopes are alive and corresponding things are found in each of them -/
theorem Store.search_matches (ids : List ScopeId) :
    Matches Eq (Option.Rel R) (s.search held here ids) (s'.search held' here' ids) := by
  induction ids with
  | nil => exact .ok .none
  | cons id ids ih =>
    rw [Store.search, Store.search, halive]
    split
    · have hid := hhere id
      generalize here id = found at hid ⊢
      generalize here' id = found' at hid ⊢
      cases hid with
      | some ha => exact .ok (.some ha)
      | none => exact ih
    · exact .error rfl

theorem Store.searchFrom_matches {id : ScopeId} (houter : (s.scope id).outer = (s'.scope id).outer) :
    Matches Eq (Option.Rel R) (s.searchFrom held here id) (s'.searchFrom held' here' id) := by
  have hid := hhere id
  rw [Store.searchFrom, Store.searchFrom, houter]
  generalize here id = found at hid ⊢
  generalize here' id = found' at hid ⊢
  cases hid with
  | some ha => exact .ok (.some ha)
  | none => exact Store.search_matches halive hhere _

end

namespace Store.Alike

variable {L : Location → Location → Prop} {s s' : Store}

/-! ## what is alive -/

section

variable {k : Likeness} (h : s.Alike k s')
include h

theorem slot (id : SlotId) : s.slot id = s'.slot id := by
  rw [Store.slot, Store.slot, h.slots]

theorem holds (r : Ref) : s.holds r = s'.holds r := by
  cases r with
  | scope id =>
    have hscope := h.scope id
    simp only [Store.holds, hscope.result, hscope.bindings]
  | slot id => rw [Store.holds, Store.holds, h.slot]
  | object id =>
    have hobject := h.object id
    simp only [Store.holds, hobject.fields, hobject.scope]

theorem round (held members : List Ref) : s.round held members = s'.round held members := by
  unfold Store.round Store.unmarked
  simp only [h.holds, h.scopes, h.slots, h.objects]

theorem settle (held : List Ref) (n : Nat) (members : List Ref) :
    s.settle held n members = s'.settle held n members := by
  induction n generalizing members with
  | zero => rfl
  | succ n ih => simp only [Store.settle, h.round, ih]

theorem alive (held : List Ref) (r : Ref) : s.alive held r = s'.alive held r := by
  have hrefs : s.refs = s'.refs := by simp only [Store.refs, h.scopes, h.slots, h.objects]
  rw [Store.alive, Store.alive, hrefs, h.settle]

theorem searchFrom {α : Type} {R : α → α → Prop} {here here' : ScopeId → Option α}
    (hhere : ∀ id, Option.Rel R (here id) (here' id)) (held : List Ref) (id : ScopeId) :
    Matches Eq (Option.Rel R) (s.searchFrom held here id) (s'.searchFrom held here' id) :=
  Store.searchFrom_matches (fun _ => h.alive held _) hhere (h.scope id).outer

end

section

variable (h : s.Alike (.spelled L) s') {n n' : String} (hn : Text.fold n = Text.fold n')
include h hn

theorem findHere (held : List Ref) (use : Use) (id : ScopeId) :
    s.findHere held use n id = s'.findHere held use n' id := by
  have hscope := h.scope id
  have howner : s.owner? held (s.scope id) = s'.owner? held (s'.scope id) := by
    rw [Store.owner?, Store.owner?, hscope.owner]
    simp only [h.alive]
  simp only [Store.findHere, hscope.bindings, hscope.functionName, hscope.result, howner, hn,
    (s'.scope id).bindings.find?_congr hn]

theorem find (held : List Ref) (use : Use) (id : ScopeId) :
    s.find held use n id = s'.find held use n' id := by
  refine (h.searchFrom (fun id => ?_) held id).eq
  rw [h.findHere hn]
  cases s'.findHere held use n' id with
  | none => exact .none
  | some found => exact .some rfl

theorem findClass (held : List Ref) (id : ScopeId) :
    Matches Eq (Option.Rel fun p p' => p.1.Alike (.spelled L) p'.1 ∧ p.2 = p'.2)
      (s.findClass held n id) (s'.findClass held n' id) := by
  refine h.searchFrom (fun id => ?_) held id
  have hfound := (h.scope id).classes.find? hn
  generalize (s.scope id).classes.find? n = found at hfound ⊢
  generalize (s'.scope id).classes.find? n' = found' at hfound ⊢
  cases hfound with
  | none => exact .none
  | some hd => exact .some ⟨hd, rfl⟩

theorem field? (id : ObjectId) : s.field? id n = s'.field? id n' := by
  rw [Store.field?, Store.field?, (h.object id).fields]
  exact (s'.object id).fields.find?_congr hn

end

end Store.Alike

/-! ## corresponding changes -/

/-- what two changes yield is the same, and they leave stores that are alike -/
structure Store.SameAfter {α : Type} (k : Likeness) (p p' : α × Store) : Prop where
  result : p.1 = p'.1
  store : p.2.Alike k p'.2

/-- what comes after the changes makes use of what they yield -/
theorem Store.SameAfter.andThen {α : Type} {k : Likeness} {p p' : α × Store}
    (h : SameAfter k p p') {f f' : α → Store → Store}
    (hf : ∀ a s s', s.Alike k s' → (f a s).Alike k (f' a s')) :
    (f p.1 p.2).Alike k (f' p'.1 p'.2) := by
  rw [h.result]
  exact hf _ _ _ h.store

theorem Store.SameAfter.bind {α β : Type} {k : Likeness} {p p' : α × Store}
    (h : SameAfter k p p') {f f' : α → Store → β × Store}
    (hf : ∀ a s s', s.Alike k s' → SameAfter k (f a s) (f' a s')) :
    SameAfter k (f p.1 p.2) (f' p'.1 p'.2) := by
  rw [h.result]
  exact hf _ _ _ h.store

namespace Store.Alike

variable {L : Location → Location → Prop} {s s' : Store}

section

variable {k : Likeness} (h : s.Alike k s')
include h

theorem newSlot (v : Value) : SameAfter k (s.newSlot v) (s'.newSlot v) where
  result := by simp only [Store.newSlot, h.slots]
  store := { h with slots := by simp only [Store.newSlot, h.slots] }

theorem setSlot (id : SlotId) (v : Value) : (s.setSlot id v).Alike k (s'.setSlot id v) :=
  { h with slots := by simp only [Store.setSlot, h.slots] }

theorem newObject {o o' : Object} (ho : o.Alike k o') :
    SameAfter k (s.newObject o) (s'.newObject o') where
  result := by simp only [Store.newObject, h.objects]
  store := { h with
    objects := by simp only [Store.newObject, Array.size_push, h.objects]
    object := by
      intro id
      rw [object_newObject, object_newObject, h.objects]
      split
      · exact ho
      · exact h.object id }

theorem newFunction {f f' : Function} (hf : f.Alike k f') (huses : f.Uses (· = .write)) :
    SameAfter k (s.newFunction f) (s'.newFunction f') where
  result := by simp only [Store.newFunction, h.functions]
  store := { h with
    functions := by simp only [Store.newFunction, Array.size_push, h.functions]
    function := by
      intro id
      rw [function_newFunction, function_newFunction, h.functions]
      split
      · exact hf
      · exact h.function id
    routine := by
      intro id
      rw [function_newFunction]
      split
      · exact huses
      · exact h.routine id }

theorem modifyScope (c : ScopeId) {f f' : Scope → Scope}
    (hf : ∀ {sc sc' : Scope}, sc.Alike k sc' → (f sc).Alike k (f' sc')) :
    (s.modifyScope c f).Alike k (s'.modifyScope c f') :=
  { h with
    scopes := by simp only [Store.modifyScope, Array.size_modify, h.scopes]
    scope := by
      intro id
      rw [scope_modifyScope, scope_modifyScope, h.scopes]
      split
      · exact hf (h.scope id)
      · exact h.scope id }

theorem modifyObject (c : ObjectId) {f f' : Object → Object}
    (hf : ∀ {o o' : Object}, o.Alike k o' → (f o).Alike k (f' o')) :
    (s.modifyObject c f).Alike k (s'.modifyObject c f') :=
  { h with
    objects := by simp only [Store.modifyObject, Array.size_modify, h.objects]
    object := by
      intro id
      rw [object_modifyObject, object_modifyObject, h.objects]
      split
      · exact hf (h.object id)
      · exact h.object id }

theorem setExplicit (id : ScopeId) (b : Bool) : (s.setExplicit id b).Alike k (s'.setExplicit id b) :=
  h.modifyScope id fun hsc => { hsc with isExplicit := rfl }

theorem setOwner (id : ScopeId) (object : ObjectId) :
    (s.modifyScope id fun sc => { sc with owner := some object }).Alike k
      (s'.modifyScope id fun sc => { sc with owner := some object }) :=
  h.modifyScope id fun hsc => { hsc with owner := rfl }

theorem after {α : Type} (a : α) : SameAfter k (a, s) (a, s') := ⟨rfl, h⟩

theorem newScope (outer : List ScopeId) (isExplicit : Bool) {name name' : Option String}
    (hname : name.map Text.fold = name'.map Text.fold) :
    SameAfter k (s.newScope outer isExplicit name) (s'.newScope outer isExplicit name') where
  result := by simp only [Store.newScope, Store.newSlot, h.scopes]
  store :=
    { (h.newSlot .empty).store with
      scopes := by simp only [Store.newScope, Store.newSlot, Array.size_push, h.scopes]
      scope := by
        intro id
        rw [scope_newScope, scope_newScope, h.scopes]
        split
        · exact ⟨rfl, rfl, .nil, rfl, by rw [freshScope, h.slots]; rfl, hname, rfl⟩
        · exact h.scope id }

theorem newChild (parent : ScopeId) {name name' : Option String}
    (hname : name.map Text.fold = name'.map Text.fold) :
    SameAfter k (s.newChild parent name) (s'.newChild parent name') := by
  simp only [Store.newChild, (h.scope parent).outer, (h.scope parent).isExplicit]
  exact h.newScope _ _ hname

end

section

variable (h : s.Alike (.spelled L) s')
include h

theorem bind (id : ScopeId) {n n' : String} (hn : Text.fold n = Text.fold n') (slot : SlotId) :
    (s.bind id n slot).Alike (.spelled L) (s'.bind id n' slot) := by
  refine h.modifyScope id fun {sc sc'} hsc => { hsc with bindings := ?_ }
  show sc.bindings.insert n slot = sc'.bindings.insert n' slot
  rw [hsc.bindings, NameTable.insert_congr _ hn]

theorem declare (id : ScopeId) {n n' : String} (hn : Text.fold n = Text.fold n') (v : Value) :
    SameAfter (.spelled L) (s.declare id n v) (s'.declare id n' v) where
  result := (h.newSlot v).result
  store := by
    have hbound := (h.newSlot v).andThen fun slot _ _ h => h.bind id hn slot
    exact hbound

theorem addField (id : ObjectId) {n n' : String} (hn : Text.fold n = Text.fold n') (slot : SlotId) :
    (s.addField id n slot).Alike (.spelled L) (s'.addField id n' slot) := by
  refine h.modifyObject id fun {o o'} ho => { ho with fields := ?_ }
  show o.fields.insert n slot = o'.fields.insert n' slot
  rw [ho.fields, NameTable.insert_congr _ hn]

theorem define (id : ObjectId) {n n' : String} (hn : Text.fold n = Text.fold n') (v : Value) :
    SameAfter (.spelled L) (s.define id n v) (s'.define id n' v) where
  result := (h.newSlot v).result
  store := by
    have hadded := (h.newSlot v).andThen fun slot _ _ h => h.addField id hn slot
    exact hadded

theorem declareFunction (id : ScopeId) {d d' : FunctionDecl} (hd : d.Alike (.spelled L) d') :
    SameAfter (.spelled L) (s.declareFunction id d) (s'.declareFunction id d') := by
  have hfunction : (Function.script d id).Alike (.spelled L) (.script d' id) := .script hd
  have hdeclared := (h.newFunction hfunction trivial).bind fun f _ _ h =>
    h.declare id hd.name (.function f)
  exact hdeclared

/-! ## declarations -/

theorem hoistDim (id : ScopeId) {d d' : Dim} (hd : d.Alike (.spelled L) d') :
    (s.hoistDim id d).Alike (.spelled L) (s'.hoistDim id d') := by
  have hfound : (s.scope id).bindings.find? d.name = (s'.scope id).bindings.find? d'.name := by
    rw [(h.scope id).bindings]
    exact NameTable.find?_congr _ hd.name
  unfold Store.hoistDim
  rw [hfound]
  split
  · exact h
  · exact (h.declare id hd.name .empty).store

theorem declareClass (id : ScopeId) {d d' : ClassDecl} (hd : d.Alike (.spelled L) d') :
    (s.declareClass id d).Alike (.spelled L) (s'.declareClass id d') := by
  refine h.modifyScope id fun hsc => { hsc with classes := hsc.classes.insert ?_ hd }
  cases hd
  assumption

end

mutual
theorem hoistStmt (id : ScopeId) : ∀ {stmt stmt' : Stmt}, stmt.Alike (.spelled L) stmt' →
    ∀ {s s' : Store}, s.Alike (.spelled L) s' →
      (stmt.hoist id s).Alike (.spelled L) (stmt'.hoist id s')
  | _, _, .dim hd, _, _, h => h.hoistDim id hd
  | _, _, .function hd, _, _, h => (h.declareFunction id hd).store
  | _, _, .class hd, _, _, h => h.declareClass id hd
  | _, _, .optionExplicit _, _, _, h => h.setExplicit id true
  | _, _, .cond _ _ ht he, _, _, h => hoist id he (hoist id ht h)
  | _, _, .assign .., _, _, h => h
  | _, _, .expr .., _, _, h => h
  | _, _, .exit .., _, _, h => h

theorem hoistAll (id : ScopeId) : ∀ {ss ss' : List Stmt}, Stmt.AllAlike (.spelled L) ss ss' →
    ∀ {s s' : Store}, s.Alike (.spelled L) s' →
      (Stmt.hoistAll id s ss).Alike (.spelled L) (Stmt.hoistAll id s' ss')
  | _, _, .nil, _, _, h => h
  | _, _, .cons hstmt hss, _, _, h => hoistAll id hss (hoistStmt id hstmt h)

theorem hoist (id : ScopeId) : ∀ {b b' : Block}, b.Alike (.spelled L) b' →
    ∀ {s s' : Store}, s.Alike (.spelled L) s' → (b.hoist id s).Alike (.spelled L) (b'.hoist id s')
  | _, _, .mk _ hss, _, _, h => hoistAll id hss h
end

/-! ## instances and activations -/

theorem addMembers (object : ObjectId) (scope : ScopeId) {ds ds' : List Dim}
    (hds : List.Forall₂ (Dim.Alike (.spelled L)) ds ds') (h : s.Alike (.spelled L) s') :
    (ds.foldl (fun s d => s.addMember object scope d.name .empty) s).Alike (.spelled L)
      (ds'.foldl (fun s d => s.addMember object scope d.name .empty) s') := by
  induction hds generalizing s s' with
  | nil => exact h
  | @cons d d' ds ds' hd _ ih =>
    have hadded := (h.declare scope hd.name .empty).andThen fun slot _ _ h =>
      h.addField object hd.name slot
    exact ih hadded

theorem addMethods (object : ObjectId) (scope : ScopeId) :
    ∀ {ds ds' : List FunctionDecl}, FunctionDecl.AllAlike (.spelled L) ds ds' →
      ∀ {s s' : Store}, s.Alike (.spelled L) s' →
        (ds.foldl (fun s d => s.addMethod object scope d) s).Alike (.spelled L)
          (ds'.foldl (fun s d => s.addMethod object scope d) s')
  | _, _, .nil, _, _, h => h
  | _, _, @FunctionDecl.AllAlike.cons _ d d' ds ds' hd hds, s, s', h => by
    have hadded := (h.declareFunction scope hd).andThen fun slot _ _ h =>
      h.addField object hd.name slot
    exact addMethods object scope hds hadded

theorem newInstance (h : s.Alike (.spelled L) s') {d d' : ClassDecl} (hd : d.Alike (.spelled L) d')
    (home : ScopeId) : SameAfter (.spelled L) (s.newInstance d home) (s'.newInstance d' home) := by
  cases hd with
  | @mk l l' n n' fs fs' ms ms' _ hn hfields hmethods =>
    have hobject (scope : ScopeId) :
        (⟨n, .empty, some scope⟩ : Object).Alike (.spelled L) ⟨n', .empty, some scope⟩ :=
      ⟨hn, rfl, rfl⟩
    have hinstance := (h.newChild home (rfl : Option.map _ none = _)).bind fun scope _ _ h =>
      (h.newObject (hobject scope)).bind fun object _ _ h =>
        (addMethods object scope hmethods
          (addMembers object scope hfields (h.setOwner scope object))).after (object, scope)
    exact hinstance

theorem bindParams (byRef : Bool) (id : ScopeId) {ps ps' : List Param}
    (hps : List.Forall₂ (Param.Alike (.spelled L)) ps ps') (args : List SlotId)
    (h : s.Alike (.spelled L) s') :
    (Eval.bindParams byRef id ps args s).Alike (.spelled L) (Eval.bindParams byRef id ps' args s') := by
  induction hps generalizing args s s' with
  | nil => exact h
  | @cons p p' ps ps' hp _ ih =>
    cases args with
    | nil => exact h
    | cons arg args =>
      have hpassed : SameAfter (.spelled L)
          (if p.byRef.getD byRef then (arg, s) else s.newSlot (s.slot arg))
          (if p'.byRef.getD byRef then (arg, s') else s'.newSlot (s'.slot arg)) := by
        rw [hp.byRef, h.slot]
        split
        · exact ⟨rfl, h⟩
        · exact h.newSlot _
      have hbound := hpassed.andThen fun slot _ _ h => ih args (h.bind id hp.name slot)
      exact hbound

theorem activate (h : s.Alike (.spelled L) s') (byRef : Bool) {d d' : FunctionDecl}
    (hd : d.Alike (.spelled L) d') (home : ScopeId) (args : List SlotId) :
    SameAfter (.spelled L) (Eval.activate byRef d home args s)
      (Eval.activate byRef d' home args s') := by
  have hname : (resultName d).map Text.fold = (resultName d').map Text.fold := by
    unfold resultName
    rw [hd.kind]
    split
    · exact congrArg some hd.name
    · rfl
  have hactivation := (h.newChild home hname).bind fun scope _ _ h =>
    (hoist scope hd.body (bindParams byRef scope hd.params args h)).after scope
  exact hactivation

end Store.Alike

end PageScript
