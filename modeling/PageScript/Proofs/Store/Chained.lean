import PageScript.Proofs.Eval.Discipline
import PageScript.Proofs.Store.Instances
import PageScript.Proofs.Store.Liveness

/-!
# Scopes that are alive are held

The scope of a call is alive exactly as long as it is held, for no thing in the store holds it; and
whoever holds it holds the scope right around it.  Scopes of instances can be alive without being
held.  But right around them there is the scope of a call, or a global one, and what lies right
inside them is the scope of a call.  So on the way from a scope where code runs outward, every scope
that a search passes is held.

* `Store.ClassesOutside`   classes are declared outside of the scopes of instances;
* `Store.Chained`          what is held with a scope;
* `Store.Chained.find_again`   what a name stands for, it goes on to stand for: all scopes that a
                               search passes are held.
-/

namespace PageScript

open Eval

namespace Store

variable {s s' : Store} {c : ScopeId}

/-! ## where classes are declared -/

theorem owner_modifyScope (s : Store) (c : ScopeId) {f : Scope → Scope}
    (hf : ∀ sc, (f sc).owner = sc.owner) (p : ScopeId) :
    ((s.modifyScope c f).scope p).owner = (s.scope p).owner := by
  rw [scope_modifyScope, apply_ite Scope.owner, hf, ite_self]

theorem owner_bind (s : Store) (c : ScopeId) (n : String) (id : SlotId) (p : ScopeId) :
    ((s.bind c n id).scope p).owner = (s.scope p).owner := by
  refine s.owner_modifyScope c ?_ p
  exact fun _ => rfl

/-- the scope of an instance has no classes, and lies right inside a scope that belongs to no
instance -/
structure ClassesOutside (s : Store) : Prop where
  owner : ∀ p n d, (s.scope p).classes.find? n = some d → (s.scope p).owner = none
  home : ∀ p q, (s.scope p).owner ≠ none → (s.scope p).outer.head? = some q →
    q.index < s.scopes.size ∧ (s.scope q).owner = none

namespace ClassesOutside

theorem newSlot (h : s.ClassesOutside) (v : Value) : (s.newSlot v).2.ClassesOutside :=
  ⟨h.owner, h.home⟩

theorem setSlot (h : s.ClassesOutside) (id : SlotId) (v : Value) :
    (s.setSlot id v).ClassesOutside :=
  ⟨h.owner, h.home⟩

theorem newFunction (h : s.ClassesOutside) (f : Function) : (s.newFunction f).2.ClassesOutside :=
  ⟨h.owner, h.home⟩

theorem newObject (h : s.ClassesOutside) (o : Object) : (s.newObject o).2.ClassesOutside :=
  ⟨h.owner, h.home⟩

theorem addField (h : s.ClassesOutside) (o : ObjectId) (n : String) (id : SlotId) :
    (s.addField o n id).ClassesOutside :=
  ⟨h.owner, h.home⟩

theorem define (h : s.ClassesOutside) (o : ObjectId) (n : String) (v : Value) :
    (s.define o n v).2.ClassesOutside :=
  (h.newSlot v).addField o n _

/-- a scope changes in its place, and gets a class only if it belongs to no instance -/
theorem modifyScope (h : s.ClassesOutside) (c : ScopeId) {f : Scope → Scope}
    (hf : ∀ sc, (f sc).outer = sc.outer ∧ (f sc).owner = sc.owner)
    (hclasses : (∀ sc, (f sc).classes = sc.classes) ∨ (s.scope c).owner = none) :
    (s.modifyScope c f).ClassesOutside := by
  have houter := s.outer_modifyScope c fun sc => (hf sc).1
  have howner := s.owner_modifyScope c fun sc => (hf sc).2
  refine ⟨fun p n d hd => ?_, fun p q hp hq => ?_⟩
  · rw [howner]
    rcases hclasses with hsame | hnone
    · rw [scope_modifyScope, apply_ite Scope.classes, hsame, ite_self] at hd
      exact h.owner p n d hd
    · rw [scope_modifyScope] at hd
      split at hd
      · rename_i heq
        obtain rfl : c = p := congrArg ScopeId.mk heq.1
        exact hnone
      · exact h.owner p n d hd
  · rw [howner] at hp
    rw [houter] at hq
    rw [howner, Store.modifyScope, Array.size_modify]
    exact h.home p q hp hq

theorem bind (h : s.ClassesOutside) (c : ScopeId) (n : String) (id : SlotId) :
    (s.bind c n id).ClassesOutside :=
  h.modifyScope c (fun _ => ⟨rfl, rfl⟩) (.inl fun _ => rfl)

theorem declare (h : s.ClassesOutside) (c : ScopeId) (n : String) (v : Value) :
    (s.declare c n v).2.ClassesOutside :=
  (h.newSlot v).bind c n _

theorem declareFunction (h : s.ClassesOutside) (c : ScopeId) (d : FunctionDecl) :
    (s.declareFunction c d).2.ClassesOutside :=
  (h.newFunction _).declare c d.name _

theorem newScope (h : s.ClassesOutside) (outer : List ScopeId) (isExplicit : Bool)
    (name : Option String) : (s.newScope outer isExplicit name).2.ClassesOutside := by
  have hlt := s.lt_newScope outer isExplicit name
  have howner : ∀ {p}, (s.scope p).owner = none →
      ((s.newScope outer isExplicit name).2.scope p).owner = none := by
    intro p hp
    rw [scope_newScope]
    split
    · rfl
    · exact hp
  refine ⟨fun p n d hd => howner (h.owner p n d (s.classes_newScope _ _ _ hd)), fun p q hp hq => ?_⟩
  rw [scope_newScope] at hp hq
  split at hp
  · exact absurd rfl hp
  · rename_i hold
    rw [if_neg hold] at hq
    obtain ⟨hthere, hnone⟩ := h.home p q hp hq
    exact ⟨hthere.trans hlt, howner hnone⟩

/-! ### blocks, activations and instances -/

theorem declaring (c : ScopeId) :
    Declaring (fun s => s.ClassesOutside ∧ (s.scope c).owner = none) c := by
  have hmodify : ∀ {s : Store} {f : Scope → Scope},
      s.ClassesOutside ∧ (s.scope c).owner = none →
      (∀ sc, (f sc).outer = sc.outer ∧ (f sc).owner = sc.owner) →
      (s.modifyScope c f).ClassesOutside ∧ ((s.modifyScope c f).scope c).owner = none := by
    intro s f h hf
    exact ⟨h.1.modifyScope c hf (.inr h.2),
      (s.owner_modifyScope c (fun sc => (hf sc).2) c).trans h.2⟩
  have hdeclare : ∀ {s : Store} (n : String) (v : Value),
      s.ClassesOutside ∧ (s.scope c).owner = none →
      (s.declare c n v).2.ClassesOutside ∧ ((s.declare c n v).2.scope c).owner = none :=
    fun {s} n v h => hmodify (s := (Store.newSlot s v).2) ⟨h.1.newSlot v, h.2⟩ fun _ => ⟨rfl, rfl⟩
  exact
    { dim := fun _ n h => hdeclare n _ h
      function := fun s d h =>
        hdeclare (s := (s.newFunction (.script d c)).2) d.name _ ⟨h.1.newFunction _, h.2⟩
      classDecl := fun _ _ h => hmodify h fun _ => ⟨rfl, rfl⟩
      explicit := fun _ h => hmodify h fun _ => ⟨rfl, rfl⟩ }

theorem hoist (h : s.ClassesOutside) (hc : (s.scope c).owner = none) (b : Block) :
    (b.hoist c s).ClassesOutside :=
  (hoist_induct (declaring c) b ⟨h, hc⟩).1

theorem activate (h : s.ClassesOutside) (byRef : Bool) (d : FunctionDecl) (home : ScopeId)
    (args : List SlotId) : (activate byRef d home args s).2.ClassesOutside := by
  have hchild : ((s.newChild home (resultName d)).2.scope ⟨s.scopes.size⟩).owner = none :=
    congrArg Scope.owner ((s.scope_newScope _ _ _ ⟨s.scopes.size⟩).trans (if_pos rfl))
  exact (activate_induct (declaring ⟨s.scopes.size⟩)
    (fun x _ _ _ _ hx => ⟨hx.1.bind _ _ _, (x.owner_bind _ _ _ _).trans hx.2⟩)
    (fun x _ arg _ _ hx => ⟨hx.1.declare _ _ _,
      ((x.newSlot (x.slot arg)).2.owner_bind _ _ _ _).trans hx.2⟩)
    ⟨h.newScope _ _ _, hchild⟩).1

/-- the scope of a new instance lies right inside the one that has the class -/
theorem opened (h : s.ClassesOutside) (d : ClassDecl) {home : ScopeId}
    (hthere : home.index < s.scopes.size) (hhome : (s.scope home).owner = none) :
    (s.opened d home).ClassesOutside := by
  have hnew := h.newScope (home :: (s.scope home).outer) (s.scope home).isExplicit none
  have hlt := s.lt_newScope (home :: (s.scope home).outer) (s.scope home).isExplicit none
  have hscope : ∀ p, p.index ≠ s.scopes.size → (s.opened d home).scope p = s.scope p := by
    intro p hp
    rw [Store.opened, scope_modifyScope, if_neg fun hboth => hp hboth.1.symm]
    exact (s.scope_newScope _ _ _ p).trans (if_neg hp)
  have hsize : s.scopes.size < (s.opened d home).scopes.size := hlt.trans_eq Array.size_modify.symm
  have hold : ∀ {q}, q.index < s.scopes.size → (s.scope q).owner = none →
      q.index < (s.opened d home).scopes.size ∧ ((s.opened d home).scope q).owner = none :=
    fun hq hnone => ⟨hq.trans hsize, by rwa [hscope _ hq.ne]⟩
  refine ⟨fun p n k hk => ?_, fun p q hp hq => ?_⟩
  · have hbefore := s.classes_opened d home hk
    rw [hscope p (lt_of_classes hbefore).ne]
    exact h.owner p n k hbefore
  · by_cases hown : p.index = s.scopes.size
    · have houter : ((s.opened d home).scope p).outer = home :: (s.scope home).outer := by
        rw [Store.opened, scope_modifyScope, apply_ite Scope.outer, ite_self]
        exact (s.outer_newScope _ _ _ p).trans (if_pos hown)
      rw [houter] at hq
      obtain rfl := Option.some.inj hq
      exact hold hthere hhome
    · rw [hscope p hown] at hp hq
      obtain ⟨hq, hnone⟩ := h.home p q hp hq
      exact hold hq hnone

theorem newInstance (h : s.ClassesOutside) (d : ClassDecl) {home : ScopeId}
    (hthere : home.index < s.scopes.size) (hhome : (s.scope home).owner = none) :
    (s.newInstance d home).2.ClassesOutside :=
  newInstance_induct (I := fun _ s' => s'.ClassesOutside) (h.opened d hthere hhome)
    (fun _ _ n hx => (hx.declare _ n _).addField _ n _)
    fun _ _ method hx => (hx.declareFunction _ method).addField _ method.name _

end ClassesOutside

/-! ## what is alive -/

/-- only instances hold scopes, each its own: any other scope is alive as long as it is listed -/
theorem Instances.mem_of_alive (h : s.Instances) {held : List Ref} {p : ScopeId}
    (halive : s.alive held (.scope p) = true) (hp : (s.scope p).owner = none) :
    .scope p ∈ held := by
  rcases (s.alive_iff held (.scope p)).mp halive with hmem | ⟨X, hX, hXp⟩
  · exact hmem
  refine (hX _ hXp).2.resolve_right ?_
  rintro ⟨y, -, hholds⟩
  cases y with
  | scope c => simp [holds] at hholds
  | slot id =>
    simp only [holds] at hholds
    cases hv : s.slot id <;> simp [hv, Value.refs] at hholds
  | object o =>
    have hscope : (s.object o).scope = some p := by simpa [holds] using hholds
    rw [h.owner o p hscope] at hp
    cases hp

/-- a scope that is alive is listed, or is there -/
theorem lt_of_alive (s : Store) {held : List Ref} {p : ScopeId}
    (h : s.alive held (.scope p) = true) : .scope p ∈ held ∨ p.index < s.scopes.size := by
  refine ((s.alive_iff held (.scope p)).mp h).imp_right ?_
  rintro ⟨X, hX, hp⟩
  obtain ⟨i, hi, rfl⟩ : ∃ i < s.scopes.size, (⟨i⟩ : ScopeId) = p := by
    simpa [refs] using (hX _ hp).1
  exact hi

/-- what is alive behind a store was alive before, while the value that is stored was held -/
theorem alive_of_setSlot {held held' : List Ref} {id : SlotId} {v : Value} {r : Ref}
    (h : (s.setSlot id v).alive held' r = true) (hheld : ∀ x ∈ held', x ∈ held)
    (hv : ∀ x ∈ v.refs, x ∈ held) : s.alive held r = true := by
  rw [alive_iff] at h ⊢
  refine h.imp (hheld r) ?_
  rintro ⟨X, hX, hr⟩
  refine ⟨X, fun x hx => ?_, hr⟩
  obtain ⟨hrefs, hsupport⟩ := hX x hx
  have hsame : (s.setSlot id v).refs = s.refs := by simp [refs, setSlot]
  refine ⟨hsame ▸ hrefs, ?_⟩
  rcases hsupport with hmem | ⟨y, hy, hholds⟩
  · exact .inl (hheld x hmem)
  cases y with
  | scope c => exact .inr ⟨.scope c, hy, hholds⟩
  | object o => exact .inr ⟨.object o, hy, hholds⟩
  | slot other =>
    have hholds : x ∈ ((s.setSlot id v).slot other).refs := hholds
    rw [slot_setSlot] at hholds
    split at hholds
    · exact .inl (hv x hholds)
    · exact .inr ⟨.slot other, hy, hholds⟩

theorem setSlot_newSlot (s : Store) (u v : Value) :
    (s.newSlot u).2.setSlot ⟨s.slots.size⟩ v = (s.newSlot v).2 := by
  have hslots : (s.slots.push u).setIfInBounds s.slots.size v = s.slots.push v := by
    apply Array.ext'
    simp
  simp only [Store.newSlot, Store.setSlot, hslots]

/-- whatever else is alive beside a new slot was alive before, while the value in it was held -/
theorem alive_of_newSlot {held held' : List Ref} {v : Value} {r : Ref}
    (hr : r ≠ .slot ⟨s.slots.size⟩) (h : (s.newSlot v).2.alive held' r = true)
    (hheld : ∀ x ∈ held', x ∈ held) (hv : ∀ x ∈ v.refs, x ∈ held) : s.alive held r = true := by
  rw [alive_iff] at h ⊢
  refine h.imp (hheld r) ?_
  rintro ⟨X, hX, hXr⟩
  refine ⟨fun x => X x ∧ x ≠ .slot ⟨s.slots.size⟩, ?_, hXr, hr⟩
  rintro x ⟨hx, hne⟩
  obtain ⟨hrefs, hsupport⟩ := hX x hx
  refine ⟨?_, ?_⟩
  · cases x with
    | scope c => simpa [refs, Store.newSlot] using hrefs
    | object o => simpa [refs, Store.newSlot] using hrefs
    | slot id =>
      have hlt : id.index < s.slots.size + 1 := by
        obtain ⟨i, hi, rfl⟩ : ∃ i < s.slots.size + 1, (⟨i⟩ : SlotId) = id := by
          simpa [refs, Store.newSlot] using hrefs
        exact hi
      have hother : id.index ≠ s.slots.size := fun heq => hne (congrArg (Ref.slot ⟨·⟩) heq)
      have hold : id.index < s.slots.size := by omega
      simpa [refs] using ⟨id.index, hold, rfl⟩
  rcases hsupport with hmem | ⟨y, hy, hholds⟩
  · exact .inl (hheld x hmem)
  cases y with
  | scope c => exact .inr ⟨.scope c, ⟨hy, by simp⟩, hholds⟩
  | object o => exact .inr ⟨.object o, ⟨hy, by simp⟩, hholds⟩
  | slot id =>
    have hvalue : x ∈ ((s.newSlot v).2.slot id).refs := hholds
    rw [slot_newSlot] at hvalue
    split at hvalue
    · exact .inl (hv x hvalue)
    · rename_i hne
      exact .inr ⟨.slot id, ⟨hy, fun heq => hne (Ref.slot.inj heq ▸ rfl)⟩, hvalue⟩

/-! ## what a name stands for in one scope -/

section

variable {held held' : List Ref} {use : Use} {x y : String} {p : ScopeId}

/-- whether a name stands for a slot has nothing to do with what is held -/
theorem findHere_slot (hscope : s'.scope p = s.scope p) (hxy : Text.fold y = Text.fold x)
    {id : SlotId} (h : s.findHere held use x p = some (.slot id)) :
    s'.findHere held' use y p = some (.slot id) := by
  rw [findHere, NameTable.find?] at h
  rw [findHere, NameTable.find?, hscope, hxy]
  cases hslot : (s.scope p).bindings.entries.lookup (Text.fold x) with
  | some slot =>
    rw [hslot] at h
    exact h
  | none =>
    simp only [hslot] at h ⊢
    by_cases hname : use = .variable ∧ (s.scope p).functionName = some (Text.fold x)
    · rw [if_pos hname] at h ⊢
      exact h
    · rw [if_neg hname] at h
      split at h
      · obtain ⟨o, -, ho⟩ := Option.map_eq_some_iff.mp h
        cases ho
      · cases h

/-- whether a name stands for an instance is a matter of the instance being alive -/
theorem findHere_owner (hscope : s'.scope p = s.scope p) (hxy : Text.fold y = Text.fold x)
    {o : ObjectId} (halive : s'.alive held' (.object o) = true)
    (h : s.findHere held use x p = some (.owner o)) :
    s'.findHere held' use y p = some (.owner o) := by
  have howner := (owner_of_findHere h).1
  rw [findHere, NameTable.find?] at h
  rw [findHere, NameTable.find?, hscope, hxy]
  cases hslot : (s.scope p).bindings.entries.lookup (Text.fold x) with
  | some slot =>
    rw [hslot] at h
    cases h
  | none =>
    simp only [hslot] at h ⊢
    split at h
    · cases h
    · rename_i hname
      rw [if_neg hname]
      split at h
      · rename_i hme
        rw [if_pos hme, owner?, howner, Option.filter_some, if_pos halive]
        rfl
      · cases h

/-- a name that stands for nothing goes on to, unless there is an instance to stand for -/
theorem findHere_none (hscope : s'.scope p = s.scope p) (hxy : Text.fold y = Text.fold x)
    (howner : s.owner? held (s.scope p) = none → s'.owner? held' (s.scope p) = none)
    (h : s.findHere held use x p = none) : s'.findHere held' use y p = none := by
  rw [findHere, NameTable.find?] at h
  rw [findHere, NameTable.find?, hscope, hxy]
  cases hslot : (s.scope p).bindings.entries.lookup (Text.fold x) with
  | some slot =>
    rw [hslot] at h
    cases h
  | none =>
    simp only [hslot] at h ⊢
    by_cases hname : use = .variable ∧ (s.scope p).functionName = some (Text.fold x)
    · rw [if_pos hname] at h
      cases h
    · rw [if_neg hname] at h ⊢
      split at h
      · rw [howner (Option.map_eq_none_iff.mp h)]
        split <;> rfl
      · rename_i hme
        rw [if_neg hme]

end

/-! ## what is held with a scope -/

/-- the scopes that are held are there, and with the scope of a call the one right around it is
held -/
structure Chained (held : List Ref) (s : Store) : Prop where
  there : ∀ p, .scope p ∈ held → p.index < s.scopes.size
  parent : ∀ p q, .scope p ∈ held → (s.scope p).owner = none →
    (s.scope p).outer.head? = some q → .scope q ∈ held

namespace Chained

variable {held held' H : List Ref}

theorem mono (h : s.Chained held) (hall : ∀ p, .scope p ∈ held → .scope p ∈ held')
    (hscopes : ∀ p, .scope p ∈ held' → .scope p ∈ held) (hsize : s.scopes.size ≤ s'.scopes.size)
    (hplace : ∀ c, c.index < s.scopes.size → s'.place c = s.place c) : s'.Chained held' where
  there p hp := (h.there p (hscopes p hp)).trans_le hsize
  parent p q hp howner hq := by
    have hsame := hplace p (h.there p (hscopes p hp))
    have houter : (s'.scope p).outer = (s.scope p).outer := congrArg (·.1) hsame
    have hown : (s'.scope p).owner = (s.scope p).owner := congrArg (·.2.2) hsame
    exact hall q (h.parent p q (hscopes p hp) (hown ▸ howner) (houter ▸ hq))

/-- one more scope is held: one that is there and belongs to an instance, or lies right inside a
scope that is held -/
theorem cons (h : s.Chained held) {c : ScopeId} (hc : c.index < s.scopes.size)
    (hparent : ∀ q, (s.scope c).owner = none → (s.scope c).outer.head? = some q →
      .scope q ∈ .scope c :: held) : s.Chained (.scope c :: held) where
  there p hp := by
    rcases List.mem_cons.mp hp with heq | hp
    · exact Ref.scope.inj heq ▸ hc
    · exact h.there p hp
  parent p q hp howner hq := by
    rcases List.mem_cons.mp hp with heq | hp
    · obtain rfl := Ref.scope.inj heq
      exact hparent q howner hq
    · exact List.mem_cons_of_mem _ (h.parent p q hp howner hq)

/-- a scope that counts as present is there -/
theorem lt_of_present (h : s.Chained held) {c : ScopeId} (hc : s.Present held c) :
    c.index < s.scopes.size := by
  obtain ⟨H, hscopes, halive⟩ := hc
  exact (s.lt_of_alive halive).elim (fun hmem => h.there c (hscopes c hmem)) fun hlt => hlt

/-- one more scope is held, which counts as present -/
theorem cons_present (h : s.Chained held) (hinstances : s.Instances) {c : ScopeId}
    (hc : s.Present held c) : s.Chained (.scope c :: held) := by
  refine h.cons (h.lt_of_present hc) fun q howner hq => ?_
  obtain ⟨H, hscopes, halive⟩ := hc
  exact List.mem_cons_of_mem _
    (h.parent c q (hscopes c (hinstances.mem_of_alive halive howner)) howner hq)

/-! ### searches -/

variable {K : List Ref} {c : ScopeId} {α : Type}

/-- the scope around one that is held is held, if it is alive -/
theorem mem_of_parent (h : s.Chained H) (hinstances : s.Instances) (hclasses : s.ClassesOutside)
    (hK : ∀ p, .scope p ∈ K → .scope p ∈ H) {p q : ScopeId} (hp : .scope p ∈ H)
    (hq : (s.scope p).outer.head? = some q) (halive : s.alive K (.scope q) = true) :
    .scope q ∈ H := by
  by_cases howner : (s.scope p).owner = none
  · exact h.parent p q hp howner hq
  · exact hK q (hinstances.mem_of_alive halive (hclasses.home p q howner hq).2)

/-- what a search finds, it finds again in a store with the same scopes, where it has to pass the
same ones: all of them are held -/
theorem searchFrom_again (h : s.Chained H) (hinstances : s.Instances)
    (hclasses : s.ClassesOutside) {n : Nat} (hnested : s.Nested n) (hnested' : s'.Nested n)
    (hscope : ∀ p, s'.scope p = s.scope p)
    (hK : ∀ p, .scope p ∈ K → .scope p ∈ H) {H' : List Ref} (hH' : ∀ r ∈ H, r ∈ H')
    {here here' : ScopeId → Option α} {a : α}
    (hfound : ∀ p, here p = some a → here' p = some a)
    (hpassed : ∀ p, here p = none → here' p = none) {c : ScopeId}
    (hc : ∀ q, (s.scope c).outer.head? = some q → s.alive K (.scope q) = true → .scope q ∈ H)
    (hsearch : s.searchFrom K here c = .ok (some a)) :
    s'.searchFrom H' here' c = .ok (some a) := by
  obtain ⟨i, hi⟩ : ∃ i, c.index = i := ⟨_, rfl⟩
  induction i using Nat.strong_induction_on generalizing c with
  | _ i ih =>
    rw [hnested.searchFrom_eq] at hsearch
    rw [hnested'.searchFrom_eq]
    cases hhere : here c with
    | some b =>
      rw [hhere] at hsearch
      obtain rfl := Option.some.inj (Except.ok.inj hsearch)
      rw [hfound c hhere]
    | none =>
      rw [hhere] at hsearch
      rw [hpassed c hhere]
      rcases hnested.chain c with hnone | ⟨q, hlt, houter⟩
      · simp [Store.parent, hnone] at hsearch
      · have hhead : (s.scope c).outer.head? = some q := by rw [houter]; rfl
        by_cases halive : s.alive K (.scope q) = true
        · have hq := hc q hhead halive
          have hagain : s'.alive H' (.scope q) = true := alive_of_mem _ (hH' _ hq)
          have hparent : s.parent K c = .ok (some q) := by simp [Store.parent, houter, halive]
          have hparent' : s'.parent H' c = .ok (some q) := by
            simp [Store.parent, hscope, houter, hagain]
          rw [hparent] at hsearch
          rw [hparent']
          exact ih q.index (hi ▸ hlt)
            (fun r hr => h.mem_of_parent hinstances hclasses hK hq hr) hsearch rfl
        · simp [Store.parent, houter, halive] at hsearch

/-- what a name stands for, it stands for in a store with the same scopes in which no further
instance is alive, in whatever letter case: a slot always, and an instance as long as it is alive -/
theorem find_again (h : s.Chained H) (hinstances : s.Instances) (hclasses : s.ClassesOutside)
    {n : Nat} (hnested : s.Nested n) (hnested' : s'.Nested n)
    (hscope : ∀ p, s'.scope p = s.scope p) (hK : ∀ p, .scope p ∈ K → .scope p ∈ H)
    {H' : List Ref} (hH' : ∀ r ∈ H, r ∈ H')
    (halive : ∀ o, s'.alive H' (.object o) = true → s.alive K (.object o) = true)
    {use : Use} {x y : String} (hxy : Text.fold y = Text.fold x)
    (hc : ∀ q, (s.scope c).outer.head? = some q → .scope q ∈ H) {f : Found}
    (hf : ∀ o, f = .owner o → s'.alive H' (.object o) = true)
    (hfind : s.find K use x c = .ok (some f)) : s'.find H' use y c = .ok (some f) := by
  have howner : ∀ p, s.owner? K (s.scope p) = none → s'.owner? H' (s.scope p) = none := by
    intro p hnone
    refine Option.filter_eq_none_iff.mpr fun o ho hlive => ?_
    exact Option.filter_eq_none_iff.mp hnone o ho (halive o hlive)
  refine h.searchFrom_again hinstances hclasses hnested hnested' hscope hK hH' (fun p hp => ?_)
    (fun p => findHere_none (hscope p) hxy (howner p)) (fun q hq _ => hc q hq) hfind
  cases f with
  | slot id => exact findHere_slot (hscope p) hxy hp
  | owner o => exact findHere_owner (hscope p) hxy (hf o rfl) hp

end Chained

end Store

end PageScript
