import PageScript.Proofs.Program.Copying
import PageScript.Proofs.Store.Alike
import PageScript.Proofs.Store.Growth
import PageScript.Proofs.Store.Liveness

/-!
# Stores with further slots

Two stores are paired when one of them has a counterpart for every slot of the other, with the same
value, and everything else in them corresponds under the same identities.  The second store can have
more slots than the first: copies, which nothing in it refers to and which keep their values.  In
its functions and classes, arguments that are picked stand in parentheses.

A pairing says which slots are counterparts, and which are copies (`Pairing`).  It grows as the
stores do.

* `Store.Paired`           stores that are paired;
* `Store.Paired.alive`     a scope or an object is alive in both or in none, where the slots that
                           are held on the two sides hold the same values;
* `Store.Paired.hoist`, `Store.Paired.newInstance`, `Store.Paired.activate`   corresponding changes
                           lead to stores that are paired.
-/

namespace PageScript

/-! ## pairings -/

structure Pairing where
  /-- the counterparts of the slots, in the order of the slots -/
  image : List SlotId
  /-- slots of the second store alone, with the values that they keep -/
  copies : List (SlotId × Value)

namespace Pairing

variable {w w' : Pairing} {i j : SlotId}

/-- a slot of the second store is the counterpart of one of the first -/
def Pairs (w : Pairing) (i j : SlotId) : Prop := w.image[i.index]? = some j

/-- a pairing grows at its end, and by more copies -/
instance : Preorder Pairing where
  le w w' := w.image <+: w'.image ∧ w.copies ⊆ w'.copies
  le_refl _ := ⟨List.prefix_rfl, List.Subset.refl _⟩
  le_trans _ _ _ h h' := ⟨h.1.trans h'.1, List.Subset.trans h.2 h'.2⟩

/-- the next slot has a counterpart -/
def push (w : Pairing) (j : SlotId) : Pairing := { w with image := w.image ++ [j] }

/-- a further copy -/
def addCopy (w : Pairing) (j : SlotId) (v : Value) : Pairing :=
  { w with copies := (j, v) :: w.copies }

theorem le_push (w : Pairing) (j : SlotId) : w ≤ w.push j :=
  ⟨List.prefix_append _ _, List.Subset.refl _⟩

theorem le_addCopy (w : Pairing) (j : SlotId) (v : Value) : w ≤ w.addCopy j v :=
  ⟨List.prefix_rfl, List.subset_cons_self _ _⟩

theorem Pairs.lt (h : w.Pairs i j) : i.index < w.image.length :=
  (List.getElem?_eq_some_iff.mp h).1

theorem Pairs.mem (h : w.Pairs i j) : j ∈ w.image := List.mem_of_getElem? h

theorem Pairs.mono (h : w.Pairs i j) (hw : w ≤ w') : w'.Pairs i j := by
  obtain ⟨more, hmore⟩ := hw.1
  have hlt : i.index < w.image.length := h.lt
  rw [Pairs, ← hmore, List.getElem?_append_left hlt]
  exact h

theorem pairs_push_iff {k : SlotId} :
    (w.push k).Pairs i j ↔ w.Pairs i j ∨ (i.index = w.image.length ∧ j = k) := by
  unfold Pairs push
  rcases Nat.lt_trichotomy i.index w.image.length with hlt | heq | hgt
  · rw [List.getElem?_append_left hlt]
    simp [hlt.ne]
  · have hnone : w.image[i.index]? = none := List.getElem?_eq_none heq.ge
    rw [hnone, heq, List.getElem?_concat_length]
    simp [eq_comm]
  · have hnone : w.image[i.index]? = none := List.getElem?_eq_none hgt.le
    rw [hnone, List.getElem?_eq_none (by simp; omega)]
    simp [hgt.ne']

end Pairing

theorem forall₂_mem {α β : Type} {R : α → β → Prop} {as : List α} {bs : List β}
    (h : List.Forall₂ R as bs) {a : α} (ha : a ∈ as) : ∃ b ∈ bs, R a b := by
  induction h with
  | nil => exact nomatch ha
  | @cons a' b as bs hab _ ih =>
    rcases List.mem_cons.mp ha with rfl | ha
    · exact ⟨b, List.mem_cons_self, hab⟩
    · obtain ⟨b', hb', hab'⟩ := ih ha
      exact ⟨b', List.mem_cons_of_mem _ hb', hab'⟩

namespace NameTable

variable {α : Type} {R R' : α → α → Prop} {t t' : NameTable α}

theorem Rel.imp (h : t.Rel R t') (hR : ∀ a b, R a b → R' a b) : t.Rel R' t' :=
  List.Forall₂.imp (fun _ _ he => ⟨he.1, hR _ _ he.2⟩) h

theorem Rel.values (h : t.Rel R t') : List.Forall₂ R t.values t'.values := by
  rw [NameTable.values, NameTable.values, List.forall₂_map_left_iff, List.forall₂_map_right_iff]
  exact List.Forall₂.imp (fun _ _ he => he.2) h

theorem Rel.names_eq (h : t.Rel R t') : t.names = t'.names := by
  have hkeys : t.entries.map Prod.fst = t'.entries.map Prod.fst := by
    rw [← List.forall₂_eq_eq_eq, List.forall₂_map_left_iff, List.forall₂_map_right_iff]
    exact List.Forall₂.imp (fun _ _ he => he.1) h
  rw [names, names, hkeys]

end NameTable

/-! ## stores -/

variable {pick : Location → Bool} {w w' : Pairing}

/-- scopes that bind counterparts, with classes in which arguments that are picked stand in
parentheses -/
structure Scope.Paired (pick : Location → Bool) (w : Pairing) (c c' : Scope) : Prop where
  outer : c.outer = c'.outer
  bindings : c.bindings.Rel w.Pairs c'.bindings
  classes : c.classes.Rel (fun d d' => d' = d.copying pick) c'.classes
  isExplicit : c.isExplicit = c'.isExplicit
  result : w.Pairs c.result c'.result
  functionName : c.functionName = c'.functionName
  owner : c.owner = c'.owner

structure Object.Paired (w : Pairing) (o o' : Object) : Prop where
  className : o.className = o'.className
  fields : o.fields.Rel w.Pairs o'.fields
  scope : o.scope = o'.scope

/-- a function with parentheses around the arguments in it that are picked -/
def Function.copying (pick : Location → Bool) : Function → Function
  | .script decl home => .script (decl.copying pick) home
  | .host name home routine => .host name home routine

theorem Scope.Paired.mono {c c' : Scope} (h : c.Paired pick w c') (hw : w ≤ w') :
    c.Paired pick w' c' :=
  { h with
    bindings := h.bindings.imp fun _ _ hij => hij.mono hw
    result := h.result.mono hw }

theorem Object.Paired.mono {o o' : Object} (h : o.Paired w o') (hw : w ≤ w') : o.Paired w' o' :=
  { h with fields := h.fields.imp fun _ _ hij => hij.mono hw }

/-- a name stands for counterparts, or for one instance -/
inductive Found.Paired (w : Pairing) : Found → Found → Prop
  | slot {i j} : w.Pairs i j → Found.Paired w (.slot i) (.slot j)
  | owner (id) : Found.Paired w (.owner id) (.owner id)

namespace Store

/-- the slots of two stores: every slot of the first has a counterpart of its own, with the same
value, and copies keep their values; the first slot has the first one for a counterpart -/
structure SlotsPaired (w : Pairing) (s s' : Store) : Prop where
  image_length : w.image.length = s.slots.size
  image_nodup : w.image.Nodup
  image_lt : ∀ j ∈ w.image, j.index < s'.slots.size
  slot_eq : ∀ {i j}, w.Pairs i j → s.slot i = s'.slot j
  copy : ∀ {j v}, (j, v) ∈ w.copies → j ∉ w.image ∧ j.index < s'.slots.size ∧ s'.slot j = v
  first : w.Pairs default default

/-- stores whose slots are paired and in which everything else corresponds; routines of the host
only write to the page -/
structure Paired (pick : Location → Bool) (w : Pairing) (s s' : Store) : Prop
    extends SlotsPaired w s s' where
  scopes : s.scopes.size = s'.scopes.size
  objects : s.objects.size = s'.objects.size
  functions : s.functions.size = s'.functions.size
  scope : ∀ id, (s.scope id).Paired pick w (s'.scope id)
  object : ∀ id, (s.object id).Paired w (s'.object id)
  function : ∀ id, s'.function id = (s.function id).copying pick
  routine : ∀ id, (s.function id).Uses (· = .write)

/-- stores that are paired by what a pairing has grown to -/
def PairedFrom (pick : Location → Bool) (w : Pairing) (s s' : Store) : Prop :=
  ∃ w', w ≤ w' ∧ s.Paired pick w' s'

theorem PairedFrom.refl {s s' : Store} (h : s.Paired pick w s') : PairedFrom pick w s s' :=
  ⟨w, le_rfl, h⟩

theorem PairedFrom.of_le {s s' : Store} (hw : w ≤ w') (h : PairedFrom pick w' s s') :
    PairedFrom pick w s s' := by
  obtain ⟨w₁, hw₁, hs⟩ := h
  exact ⟨w₁, hw.trans hw₁, hs⟩

theorem PairedFrom.andThen {s s' t t' : Store} (h : PairedFrom pick w s s')
    (ht : ∀ {w}, s.Paired pick w s' → PairedFrom pick w t t') : PairedFrom pick w t t' := by
  obtain ⟨w₁, hw₁, hs⟩ := h
  exact (ht hs).of_le hw₁

/-! ## slots -/

namespace SlotsPaired

variable {s s' : Store} (h : SlotsPaired w s s')
include h

theorem pairs_new : (w.push ⟨s'.slots.size⟩).Pairs ⟨s.slots.size⟩ ⟨s'.slots.size⟩ :=
  Pairing.pairs_push_iff.mpr (.inr ⟨h.image_length.symm, rfl⟩)

theorem newSlot (v : Value) :
    SlotsPaired (w.push ⟨s'.slots.size⟩) (s.newSlot v).2 (s'.newSlot v).2 where
  image_length := by
    rw [Pairing.push, List.length_append, h.image_length]
    exact (Array.size_push v).symm
  image_nodup := by
    refine List.nodup_append.mpr ⟨h.image_nodup, by simp, ?_⟩
    rintro j hj _ hk rfl
    obtain rfl := List.mem_singleton.mp hk
    exact (h.image_lt _ hj).false
  image_lt := by
    intro j hj
    rw [show (s'.newSlot v).2.slots.size = s'.slots.size + 1 from Array.size_push v]
    rcases List.mem_append.mp hj with hj | hj
    · exact (h.image_lt j hj).trans (Nat.lt_succ_self _)
    · obtain rfl := List.mem_singleton.mp hj
      exact Nat.lt_succ_self _
  slot_eq := by
    intro i j hij
    rcases Pairing.pairs_push_iff.mp hij with hij | ⟨hi, rfl⟩
    · have hlt := hij.lt
      rw [slot_newSlot_of_lt (h.image_length ▸ hlt), slot_newSlot_of_lt (h.image_lt j hij.mem)]
      exact h.slot_eq hij
    · rw [slot_newSlot, slot_newSlot, if_pos (hi.trans h.image_length), if_pos rfl]
  copy := by
    intro j u hj
    obtain ⟨hnew, hlt, hslot⟩ := h.copy hj
    refine ⟨fun hmem => ?_, lt_newSlot_of_lt hlt, (slot_newSlot_of_lt hlt).trans hslot⟩
    rcases List.mem_append.mp hmem with hmem | hmem
    · exact hnew hmem
    · obtain rfl := List.mem_singleton.mp hmem
      exact hlt.false
  first := h.first.mono (w.le_push _)

theorem newCopy (v : Value) :
    SlotsPaired (w.addCopy ⟨s'.slots.size⟩ v) s (s'.newSlot v).2 where
  image_length := h.image_length
  image_nodup := h.image_nodup
  image_lt j hj := lt_newSlot_of_lt (h.image_lt j hj)
  slot_eq hij := (h.slot_eq hij).trans (slot_newSlot_of_lt (h.image_lt _ hij.mem)).symm
  copy := by
    intro j u hj
    rcases List.mem_cons.mp hj with hj | hj
    · obtain ⟨rfl, rfl⟩ := Prod.mk.inj hj
      refine ⟨fun hmem => (h.image_lt _ hmem).false, lt_newSlot s' u, ?_⟩
      rw [slot_newSlot, if_pos rfl]
    · obtain ⟨hnew, hlt, hslot⟩ := h.copy hj
      exact ⟨hnew, lt_newSlot_of_lt hlt, (slot_newSlot_of_lt hlt).trans hslot⟩
  first := h.first

/-- counterparts get the same value -/
theorem setSlot {i j : SlotId} (hij : w.Pairs i j) (v : Value) :
    SlotsPaired w (s.setSlot i v) (s'.setSlot j v) where
  image_length := h.image_length.trans Array.size_setIfInBounds.symm
  image_nodup := h.image_nodup
  image_lt k hk := (h.image_lt k hk).trans_eq Array.size_setIfInBounds.symm
  slot_eq := by
    intro k l hkl
    by_cases hk : k = i
    · subst hk
      obtain rfl : l = j := Option.some.inj (hkl.symm.trans hij)
      rw [slot_setSlot, slot_setSlot, if_pos ⟨rfl, h.image_length ▸ hkl.lt⟩,
        if_pos ⟨rfl, h.image_lt l hkl.mem⟩]
    · -- counterparts of other slots are other slots
      have hl : l ≠ j := by
        rintro rfl
        have hindex := (List.getElem?_inj hkl.lt h.image_nodup).mp (hkl.trans hij.symm)
        exact hk (congrArg SlotId.mk hindex)
      rw [slot_setSlot_of_ne hk, slot_setSlot_of_ne hl]
      exact h.slot_eq hkl
  copy := by
    intro k u hk
    obtain ⟨hnew, hlt, hslot⟩ := h.copy hk
    have hne : k ≠ j := by
      rintro rfl
      exact hnew hij.mem
    exact ⟨hnew, hlt.trans_eq Array.size_setIfInBounds.symm, (slot_setSlot_of_ne hne).trans hslot⟩
  first := h.first

end SlotsPaired

theorem SlotsPaired.of_slots {s s' t t' : Store} (h : SlotsPaired w s s') (ht : t.slots = s.slots)
    (ht' : t'.slots = s'.slots) : SlotsPaired w t t' where
  image_length := by rw [ht, h.image_length]
  image_nodup := h.image_nodup
  image_lt := by
    rw [ht']
    exact h.image_lt
  slot_eq := by
    intro i j hij
    rw [slot, slot, ht, ht']
    exact h.slot_eq hij
  copy := by
    intro j v hj
    rw [slot, ht']
    exact h.copy hj
  first := h.first

/-! ## what is alive -/

/-- the same thing, or two slots with the same value -/
inductive SameRef (s s' : Store) : Ref → Ref → Prop
  | scope (id) : SameRef s s' (.scope id) (.scope id)
  | object (id) : SameRef s s' (.object id) (.object id)
  | slot {i j} : s.slot i = s'.slot j → SameRef s s' (.slot i) (.slot j)

theorem SameRef.flip {s s' : Store} {r r' : Ref} (h : SameRef s s' r r') : SameRef s' s r' r := by
  cases h with
  | scope id => exact .scope id
  | object id => exact .object id
  | slot hslot => exact .slot hslot.symm

def NoSlot : Ref → Prop
  | .slot _ => False
  | _ => True

theorem exists_slot_of_not_noSlot {r : Ref} (h : ¬ NoSlot r) : ∃ i, r = .slot i := by
  cases r with
  | slot i => exact ⟨i, rfl⟩
  | _ => exact absurd trivial h

theorem SameRef.eq_of_noSlot {s s' : Store} {r r' : Ref} (h : SameRef s s' r r') (hr : NoSlot r) :
    r' = r := by
  cases h with
  | slot _ => exact hr.elim
  | _ => rfl

/-- slots hold no slots -/
theorem noSlot_of_holds_slot {s : Store} {x : Ref} {i : SlotId} (h : .slot i ∈ s.holds x) :
    NoSlot x := by
  cases x with
  | slot k =>
    simp only [holds, Value.refs] at h
    split at h <;> simp at h
  | _ => trivial

/-- a slot that holds something is there -/
theorem mem_refs_of_holds_slot {s : Store} {i : SlotId} {r : Ref} (h : r ∈ s.holds (.slot i)) :
    .slot i ∈ s.refs := by
  rw [← fits_unmarked]
  show i.index < (Array.replicate s.slots.size false).size
  rw [Array.size_replicate]
  by_contra hlt
  have hempty : s.slot i = .empty := by
    rw [slot, Array.getElem?_eq_none (by omega)]
    rfl
  rw [holds, hempty] at h
  cases h

/-- a slot is listed or held by a scope or an object of a set -/
def Needed (s : Store) (held : List Ref) (X : Ref → Prop) (j : SlotId) : Prop :=
  .slot j ∈ held ∨ ∃ x, NoSlot x ∧ X x ∧ .slot j ∈ s.holds x

/-- the scopes and objects of a set, with the slots that are listed or that these hold -/
def Mirrored (s : Store) (held : List Ref) (X : Ref → Prop) (r : Ref) : Prop :=
  (NoSlot r ∧ X r) ∨ ∃ j, r = .slot j ∧ .slot j ∈ s.refs ∧ Needed s held X j

/-- the second store has the scopes and objects of the first one, and whatever is listed or held by
a scope or an object in the first, the same is in the second -/
structure Reflects (s s' : Store) (held held' : List Ref) : Prop where
  scopes : s.scopes.size ≤ s'.scopes.size
  objects : s.objects.size ≤ s'.objects.size
  listed : ∀ r ∈ held, ∃ r' ∈ held', SameRef s s' r r'
  holds : ∀ x, NoSlot x → ∀ r ∈ s.holds x, ∃ r' ∈ s'.holds x, SameRef s s' r r'

namespace Reflects

variable {s s' : Store} {held held' : List Ref} (h : Reflects s s' held held')
include h

theorem mem_refs {x : Ref} (hx : NoSlot x) (hr : x ∈ s.refs) : x ∈ s'.refs := by
  have hscopes := h.scopes
  have hobjects := h.objects
  cases x with
  | scope id =>
    rw [← fits_unmarked] at hr ⊢
    simp only [unmarked, Marks.Fits, Array.size_replicate] at hr ⊢
    omega
  | object id =>
    rw [← fits_unmarked] at hr ⊢
    simp only [unmarked, Marks.Fits, Array.size_replicate] at hr ⊢
    omega
  | slot i => exact hx.elim

/-- for a slot of a supported set, the second store has one with the same value for the same
reason -/
theorem exists_slot {X : Ref → Prop} (hX : s.Supported held X) {i : SlotId} (hi : X (.slot i)) :
    ∃ j, Needed s' held' X j ∧ s.slot i = s'.slot j := by
  obtain ⟨-, hlisted | ⟨x, hXx, hholds⟩⟩ := hX _ hi
  · obtain ⟨r', hr', hsame⟩ := h.listed _ hlisted
    cases hsame with
    | slot hslot => exact ⟨_, .inl hr', hslot⟩
  · have hx := noSlot_of_holds_slot hholds
    obtain ⟨r', hr', hsame⟩ := h.holds x hx _ hholds
    cases hsame with
    | slot hslot => exact ⟨_, .inr ⟨x, hx, hXx, hr'⟩, hslot⟩

/-- what corresponds to a supported set is supported in the second store -/
theorem supported {X : Ref → Prop} (hX : s.Supported held X) :
    s'.Supported held' (Mirrored s' held' X) := by
  have hmirrored {x : Ref} (hx : NoSlot x) (hXx : X x) : Mirrored s' held' X x :=
    .inl ⟨hx, hXx⟩
  rintro r (⟨hr, hXr⟩ | ⟨j, rfl, hrefs, hneeded⟩)
  · obtain ⟨hrefs, hlisted | ⟨y, hXy, hholds⟩⟩ := hX r hXr
    · obtain ⟨r', hr', hsame⟩ := h.listed r hlisted
      exact ⟨h.mem_refs hr hrefs, .inl (hsame.eq_of_noSlot hr ▸ hr')⟩
    · refine ⟨h.mem_refs hr hrefs, .inr ?_⟩
      by_cases hy : NoSlot y
      · obtain ⟨r', hr', hsame⟩ := h.holds y hy r hholds
        exact ⟨y, hmirrored hy hXy, hsame.eq_of_noSlot hr ▸ hr'⟩
      · -- a slot holds it: the same value is in a slot that is there for the same reason
        obtain ⟨i, rfl⟩ := exists_slot_of_not_noSlot hy
        obtain ⟨j, hneeded, hslot⟩ := h.exists_slot hX hXy
        have hheld : r ∈ s'.holds (.slot j) := by
          rw [Store.holds, ← hslot]
          exact hholds
        exact ⟨_, .inr ⟨j, rfl, mem_refs_of_holds_slot hheld, hneeded⟩, hheld⟩
  · rcases hneeded with hlisted | ⟨x, hx, hXx, hholds⟩
    · exact ⟨hrefs, .inl hlisted⟩
    · exact ⟨hrefs, .inr ⟨x, hmirrored hx hXx, hholds⟩⟩

/-- a scope or an object that is alive is alive in the second store -/
theorem alive {r : Ref} (hr : NoSlot r) (halive : s.alive held r = true) :
    s'.alive held' r = true := by
  rw [alive_iff] at halive ⊢
  rcases halive with hlisted | ⟨X, hX, hXr⟩
  · obtain ⟨r', hr', hsame⟩ := h.listed r hlisted
    exact .inl (hsame.eq_of_noSlot hr ▸ hr')
  · exact .inr ⟨_, h.supported hX, .inl ⟨hr, hXr⟩⟩

end Reflects

namespace Paired

variable {s s' : Store}

section

variable (h : s.Paired pick w s') {held held' : List Ref}
  (hheld : List.Forall₂ (SameRef s s') held held')
include h

/-- a scope or an object holds the same things in both stores -/
theorem holds {x : Ref} (hx : NoSlot x) :
    List.Forall₂ (SameRef s s') (s.holds x) (s'.holds x) := by
  have hslots {t t' : NameTable SlotId} (ht : t.Rel w.Pairs t') :
      List.Forall₂ (SameRef s s') (t.values.map .slot) (t'.values.map .slot) := by
    rw [List.forall₂_map_left_iff, List.forall₂_map_right_iff]
    exact List.Forall₂.imp (fun _ _ hij => .slot (h.slot_eq hij)) ht.values
  cases x with
  | scope id =>
    have hid := h.scope id
    exact .cons (.slot (h.slot_eq hid.result)) (hslots hid.bindings)
  | object id =>
    have hid := h.object id
    simp only [Store.holds, hid.scope]
    refine List.rel_append (hslots hid.fields) ?_
    exact List.forall₂_same.mpr fun r hr => by
      obtain ⟨c, -, rfl⟩ := List.mem_map.mp hr
      exact .scope c
  | slot i => exact hx.elim

include hheld

theorem reflects : Reflects s s' held held' where
  scopes := h.scopes.le
  objects := h.objects.le
  listed _ hr := forall₂_mem hheld hr
  holds _ hx _ hr := forall₂_mem (h.holds hx) hr

theorem reflected : Reflects s' s held' held where
  scopes := h.scopes.ge
  objects := h.objects.ge
  listed _ hr := forall₂_mem (hheld.imp fun _ _ h => h.flip).flip hr
  holds _ hx _ hr := forall₂_mem ((h.holds hx).imp fun _ _ h => h.flip).flip hr

/-- a scope or an object is alive in both stores or in none -/
theorem alive {r : Ref} (hr : NoSlot r) : s.alive held r = s'.alive held' r :=
  Bool.eq_iff_iff.mpr ⟨(h.reflects hheld).alive hr, (h.reflected hheld).alive hr⟩

/-! ## names -/

theorem searchFrom {α : Type} {R : α → α → Prop} {here here' : ScopeId → Option α}
    (hhere : ∀ id, Option.Rel R (here id) (here' id)) (id : ScopeId) :
    Matches Eq (Option.Rel R) (s.searchFrom held here id) (s'.searchFrom held' here' id) :=
  Store.searchFrom_matches (fun id => h.alive hheld (r := .scope id) trivial) hhere
    (h.scope id).outer

theorem findHere (use : Use) (n : String) (id : ScopeId) :
    Option.Rel (Found.Paired w) (s.findHere held use n id) (s'.findHere held' use n id) := by
  have hscope := h.scope id
  have howner : s.owner? held (s.scope id) = s'.owner? held' (s'.scope id) := by
    rw [Store.owner?, Store.owner?, hscope.owner]
    exact congrFun (congrArg _ (funext fun o => h.alive hheld (r := .object o) trivial)) _
  have hfound := hscope.bindings.find? (rfl : Text.fold n = _)
  rw [Store.findHere, Store.findHere, hscope.functionName, howner]
  generalize (s.scope id).bindings.find? n = found at hfound ⊢
  generalize (s'.scope id).bindings.find? n = found' at hfound ⊢
  cases hfound with
  | some hij => exact .some (.slot hij)
  | none =>
    dsimp only
    split
    · exact .some (.slot hscope.result)
    · split
      · cases s'.owner? held' (s'.scope id) with
        | none => exact .none
        | some o => exact .some (.owner o)
      · exact .none

theorem find (use : Use) (n : String) (id : ScopeId) :
    Matches Eq (Option.Rel (Found.Paired w)) (s.find held use n id) (s'.find held' use n id) :=
  h.searchFrom hheld (h.findHere hheld use n) id

theorem findClass (n : String) (id : ScopeId) :
    Matches Eq (Option.Rel fun p p' => p'.1 = p.1.copying pick ∧ p.2 = p'.2)
      (s.findClass held n id) (s'.findClass held' n id) := by
  refine h.searchFrom hheld (fun id => ?_) id
  have hfound := (h.scope id).classes.find? (rfl : Text.fold n = _)
  generalize (s.scope id).classes.find? n = found at hfound ⊢
  generalize (s'.scope id).classes.find? n = found' at hfound ⊢
  cases hfound with
  | none => exact .none
  | some hd => exact .some ⟨hd, rfl⟩

omit hheld

theorem field? (id : ObjectId) (n : String) :
    Option.Rel w.Pairs (s.field? id n) (s'.field? id n) :=
  (h.object id).fields.find? rfl

end

/-! ## corresponding changes -/

section

variable (h : s.Paired pick w s')
include h

theorem withSlots (hw : w ≤ w') {vs vs' : Array Value}
    (hslots : SlotsPaired w' { s with slots := vs } { s' with slots := vs' }) :
    { s with slots := vs }.Paired pick w' { s' with slots := vs' } where
  toSlotsPaired := hslots
  scopes := h.scopes
  objects := h.objects
  functions := h.functions
  scope id := (h.scope id).mono hw
  object id := (h.object id).mono hw
  function := h.function
  routine := h.routine

theorem newSlot (v : Value) :
    (s.newSlot v).2.Paired pick (w.push ⟨s'.slots.size⟩) (s'.newSlot v).2 :=
  h.withSlots (w.le_push _) (h.toSlotsPaired.newSlot v)

theorem newCopy (v : Value) :
    s.Paired pick (w.addCopy ⟨s'.slots.size⟩ v) (s'.newSlot v).2 :=
  h.withSlots (w.le_addCopy _ _) (h.toSlotsPaired.newCopy v)

theorem setSlot {i j : SlotId} (hij : w.Pairs i j) (v : Value) :
    (s.setSlot i v).Paired pick w (s'.setSlot j v) :=
  h.withSlots le_rfl (h.toSlotsPaired.setSlot hij v)

theorem newObject {o o' : Object} (ho : o.Paired w o') :
    (s.newObject o).2.Paired pick w (s'.newObject o').2 where
  toSlotsPaired := h.of_slots rfl rfl
  scopes := h.scopes
  objects := by simp only [Store.newObject, Array.size_push, h.objects]
  functions := h.functions
  scope := h.scope
  object := by
    intro id
    rw [object_newObject, object_newObject, h.objects]
    split
    · exact ho
    · exact h.object id
  function := h.function
  routine := h.routine

theorem newFunction {f : Function} (huses : f.Uses (· = .write)) :
    (s.newFunction f).2.Paired pick w (s'.newFunction (f.copying pick)).2 where
  toSlotsPaired := h.of_slots rfl rfl
  scopes := h.scopes
  objects := h.objects
  functions := by simp only [Store.newFunction, Array.size_push, h.functions]
  scope := h.scope
  object := h.object
  function := by
    intro id
    rw [function_newFunction, function_newFunction, h.functions]
    split
    · rfl
    · exact h.function id
  routine := by
    intro id
    rw [function_newFunction]
    split
    · exact huses
    · exact h.routine id

theorem modifyScope (c : ScopeId) {f f' : Scope → Scope}
    (hf : ∀ {sc sc' : Scope}, sc.Paired pick w sc' → (f sc).Paired pick w (f' sc')) :
    (s.modifyScope c f).Paired pick w (s'.modifyScope c f') where
  toSlotsPaired := h.of_slots rfl rfl
  scopes := by simp only [Store.modifyScope, Array.size_modify, h.scopes]
  objects := h.objects
  functions := h.functions
  scope := by
    intro id
    rw [scope_modifyScope, scope_modifyScope, h.scopes]
    split
    · exact hf (h.scope id)
    · exact h.scope id
  object := h.object
  function := h.function
  routine := h.routine

theorem modifyObject (c : ObjectId) {f f' : Object → Object}
    (hf : ∀ {o o' : Object}, o.Paired w o' → (f o).Paired w (f' o')) :
    (s.modifyObject c f).Paired pick w (s'.modifyObject c f') where
  toSlotsPaired := h.of_slots rfl rfl
  scopes := h.scopes
  objects := by simp only [Store.modifyObject, Array.size_modify, h.objects]
  functions := h.functions
  scope := h.scope
  object := by
    intro id
    rw [object_modifyObject, object_modifyObject, h.objects]
    split
    · exact hf (h.object id)
    · exact h.object id
  function := h.function
  routine := h.routine

theorem bind (id : ScopeId) (n : String) {i j : SlotId} (hij : w.Pairs i j) :
    (s.bind id n i).Paired pick w (s'.bind id n j) :=
  h.modifyScope id fun hsc => { hsc with bindings := hsc.bindings.insert rfl hij }

theorem setExplicit (id : ScopeId) (b : Bool) :
    (s.setExplicit id b).Paired pick w (s'.setExplicit id b) :=
  h.modifyScope id fun hsc => { hsc with isExplicit := rfl }

theorem setOwner (id : ScopeId) (object : ObjectId) :
    (s.modifyScope id fun sc => { sc with owner := some object }).Paired pick w
      (s'.modifyScope id fun sc => { sc with owner := some object }) :=
  h.modifyScope id fun hsc => { hsc with owner := rfl }

theorem declareClass (id : ScopeId) (d : ClassDecl) :
    (s.declareClass id d).Paired pick w (s'.declareClass id (d.copying pick)) :=
  h.modifyScope id fun hsc =>
    { hsc with classes := hsc.classes.insert (by rw [ClassDecl.name_copying]) rfl }

theorem addField (id : ObjectId) (n : String) {i j : SlotId} (hij : w.Pairs i j) :
    (s.addField id n i).Paired pick w (s'.addField id n j) :=
  h.modifyObject id fun ho => { ho with fields := ho.fields.insert rfl hij }

theorem declare (id : ScopeId) (n : String) (v : Value) :
    (s.declare id n v).2.Paired pick (w.push ⟨s'.slots.size⟩) (s'.declare id n v).2 :=
  (h.newSlot v).bind id n h.pairs_new

theorem define (id : ObjectId) (n : String) (v : Value) :
    (s.define id n v).2.Paired pick (w.push ⟨s'.slots.size⟩) (s'.define id n v).2 :=
  (h.newSlot v).addField id n h.pairs_new

theorem newObject_eq (o o' : Object) : (s.newObject o).1 = (s'.newObject o').1 :=
  congrArg ObjectId.mk h.objects

theorem declareFunction (id : ScopeId) (d : FunctionDecl) :
    (s.declareFunction id d).2.Paired pick (w.push ⟨s'.slots.size⟩)
      (s'.declareFunction id (d.copying pick)).2 := by
  have hfunction := h.newFunction (f := .script d id) trivial
  have hdeclared := hfunction.declare id d.name (.function ⟨s.functions.size⟩)
  show Store.Paired _ _ _
    ((s'.newFunction (.script (d.copying pick) id)).2.declare id (d.copying pick).name
      (.function ⟨s'.functions.size⟩)).2
  rw [← h.functions, FunctionDecl.name_copying]
  exact hdeclared

theorem newScope (outer : List ScopeId) (isExplicit : Bool) (name : Option String) :
    (s.newScope outer isExplicit name).2.Paired pick (w.push ⟨s'.slots.size⟩)
      (s'.newScope outer isExplicit name).2 where
  toSlotsPaired := (h.toSlotsPaired.newSlot .empty).of_slots rfl rfl
  scopes := by simp only [Store.newScope, Store.newSlot, Array.size_push, h.scopes]
  objects := h.objects
  functions := h.functions
  scope := by
    intro id
    rw [scope_newScope, scope_newScope, h.scopes]
    split
    · exact ⟨rfl, .nil, .nil, rfl, h.pairs_new, rfl, rfl⟩
    · exact (h.scope id).mono (w.le_push _)
  object id := (h.object id).mono (w.le_push _)
  function := h.function
  routine := h.routine

theorem newScope_eq (outer : List ScopeId) (isExplicit : Bool) (name : Option String) :
    (s.newScope outer isExplicit name).1 = (s'.newScope outer isExplicit name).1 :=
  congrArg ScopeId.mk h.scopes

/-! ## declarations -/

theorem hoistDim (id : ScopeId) (d : Dim) :
    PairedFrom pick w (s.hoistDim id d) (s'.hoistDim id d) := by
  have hfound := (h.scope id).bindings.find? (rfl : Text.fold d.name = _)
  rw [Store.hoistDim, Store.hoistDim]
  generalize (s.scope id).bindings.find? d.name = found at hfound ⊢
  generalize (s'.scope id).bindings.find? d.name = found' at hfound ⊢
  cases hfound with
  | some _ => exact .refl h
  | none => exact .of_le (w.le_push _) (.refl (h.declare id d.name .empty))

end

mutual
theorem hoistStmt (id : ScopeId) : ∀ (stmt : Stmt) {w : Pairing} {s s' : Store},
    s.Paired pick w s' → PairedFrom pick w (stmt.hoist id s) ((stmt.copying pick).hoist id s')
  | .dim d, _, _, _, h => h.hoistDim id d
  | .function d, w, _, _, h => .of_le (w.le_push _) (.refl (h.declareFunction id d))
  | .class d, _, _, _, h => .refl (h.declareClass id d)
  | .optionExplicit _, _, _, _, h => .refl (h.setExplicit id true)
  | .cond _ _ t e, _, _, _, h => (hoist id t h).andThen (hoist id e)
  | .assign .., _, _, _, h => .refl h
  | .expr .., _, _, _, h => .refl h
  | .exit .., _, _, _, h => .refl h

theorem hoistAll (id : ScopeId) : ∀ (ss : List Stmt) {w : Pairing} {s s' : Store},
    s.Paired pick w s' →
      PairedFrom pick w (Stmt.hoistAll id s ss) (Stmt.hoistAll id s' (Stmt.copyingAll pick ss))
  | [], _, _, _, h => .refl h
  | stmt :: ss, _, _, _, h => (hoistStmt id stmt h).andThen (hoistAll id ss)

theorem hoist (id : ScopeId) : ∀ (b : Block) {w : Pairing} {s s' : Store},
    s.Paired pick w s' → PairedFrom pick w (b.hoist id s) ((b.copying pick).hoist id s')
  | ⟨_, ss⟩, _, _, _, h => hoistAll id ss h
end

/-! ## instances and activations -/

theorem newChild (h : s.Paired pick w s') (parent : ScopeId) (name : Option String) :
    (s.newChild parent name).2.Paired pick (w.push ⟨s'.slots.size⟩)
      (s'.newChild parent name).2 := by
  simp only [Store.newChild, (h.scope parent).outer, (h.scope parent).isExplicit]
  exact h.newScope _ _ name

theorem newChild_eq (h : s.Paired pick w s') (parent : ScopeId) (name : Option String) :
    (s.newChild parent name).1 = (s'.newChild parent name).1 := h.newScope_eq _ _ name

theorem addMembers (object : ObjectId) (scope : ScopeId) (ds : List Dim)
    (h : s.Paired pick w s') :
    PairedFrom pick w (ds.foldl (fun s d => s.addMember object scope d.name .empty) s)
      (ds.foldl (fun s d => s.addMember object scope d.name .empty) s') := by
  induction ds generalizing w s s' with
  | nil => exact .refl h
  | cons d ds ih =>
    have hadded := (h.declare scope d.name .empty).addField object d.name h.pairs_new
    exact .of_le (w.le_push _) (ih hadded)

theorem addMethod (object : ObjectId) (scope : ScopeId) (d : FunctionDecl)
    (h : s.Paired pick w s') :
    (s.addMethod object scope d).Paired pick (w.push ⟨s'.slots.size⟩)
      (s'.addMethod object scope (d.copying pick)) := by
  have hadded := (h.declareFunction scope d).addField object d.name h.pairs_new
  show Store.Paired _ _ _
    ((s'.declareFunction scope (d.copying pick)).2.addField object (d.copying pick).name _)
  rw [FunctionDecl.name_copying]
  exact hadded

theorem addMethods (object : ObjectId) (scope : ScopeId) (ds : List FunctionDecl)
    (h : s.Paired pick w s') :
    PairedFrom pick w (ds.foldl (fun s d => s.addMethod object scope d) s)
      ((FunctionDecl.copyingAll pick ds).foldl (fun s d => s.addMethod object scope d) s') := by
  induction ds generalizing w s s' with
  | nil => exact .refl h
  | cons d ds ih =>
    exact .of_le (w.le_push _) (ih (h.addMethod object scope d))

theorem newInstance (h : s.Paired pick w s') (d : ClassDecl) (home : ScopeId) :
    (s.newInstance d home).1 = (s'.newInstance (d.copying pick) home).1 ∧
      PairedFrom pick w (s.newInstance d home).2 (s'.newInstance (d.copying pick) home).2 := by
  have hchild := h.newChild home none
  have hscope := h.newChild_eq home none
  simp only [Store.newInstance, ClassDecl.name_copying, ClassDecl.fields_copying,
    ClassDecl.methods_copying, ← hscope]
  generalize (s.newChild home none).1 = scope
  generalize (s.newChild home none).2 = t at hchild ⊢
  generalize (s'.newChild home none).2 = t' at hchild ⊢
  have hobject := hchild.newObject (o := ⟨d.name, .empty, some scope⟩) ⟨rfl, .nil, rfl⟩
  rw [← hchild.newObject_eq ⟨d.name, .empty, some scope⟩]
  generalize (t.newObject _).1 = object
  have hmembers := (hobject.setOwner scope object).addMembers object scope d.fields
  exact ⟨rfl, .of_le (w.le_push _) (hmembers.andThen fun h => h.addMethods _ scope d.methods)⟩

end Paired

/-! ## parameters -/

/-- an argument with the same value on both sides -/
structure Given (s s' : Store) (i j : SlotId) : Prop where
  lt : i.index < s.slots.size
  lt' : j.index < s'.slots.size
  slot_eq : s.slot i = s'.slot j

/-- the arguments of a call: the same values, in counterparts wherever a parameter takes the slot
itself -/
structure Passes (byRef : Bool) (w : Pairing) (s s' : Store) (ps : List Param)
    (args args' : List SlotId) : Prop where
  given : List.Forall₂ (Given s s') args args'
  pairs : ∀ x ∈ ps.zip (args.zip args'), x.1.byRef.getD byRef = true → w.Pairs x.2.1 x.2.2

theorem SlotsPaired.given {s s' : Store} (h : SlotsPaired w s s') {i j : SlotId}
    (hij : w.Pairs i j) : Given s s' i j where
  lt := h.image_length ▸ hij.lt
  lt' := h.image_lt j hij.mem
  slot_eq := h.slot_eq hij

theorem Given.newSlot {s s' : Store} {i j : SlotId} (h : Given s s' i j) (v v' : Value) :
    Given (s.newSlot v).2 (s'.newSlot v').2 i j where
  lt := lt_newSlot_of_lt h.lt
  lt' := lt_newSlot_of_lt h.lt'
  slot_eq := by rw [slot_newSlot_of_lt h.lt, slot_newSlot_of_lt h.lt', h.slot_eq]

/-- what is passed only depends on the slots -/
theorem Passes.of_newSlot {byRef : Bool} {s s' : Store} {ps : List Param} {args args' : List SlotId}
    (h : Passes byRef w s s' ps args args') (hw : w ≤ w') (v v' : Value) :
    Passes byRef w' (s.newSlot v).2 (s'.newSlot v').2 ps args args' where
  given := h.given.imp fun _ _ hij => hij.newSlot v v'
  pairs x hx hbyRef := (h.pairs x hx hbyRef).mono hw

theorem Passes.of_slots {byRef : Bool} {s s' t t' : Store} {ps : List Param}
    {args args' : List SlotId} (h : Passes byRef w s s' ps args args') (ht : t.slots = s.slots)
    (ht' : t'.slots = s'.slots) : Passes byRef w t t' ps args args' where
  given := h.given.imp fun i j hij => by
    refine ⟨by rw [ht]; exact hij.lt, by rw [ht']; exact hij.lt', ?_⟩
    rw [slot, slot, ht, ht']
    exact hij.slot_eq
  pairs := h.pairs

namespace Paired

variable {s s' : Store}

/-- parameters are bound to counterparts -/
theorem bindParams {byRef : Bool} (id : ScopeId) {ps : List Param} {args args' : List SlotId}
    (hpasses : Passes byRef w s s' ps args args') (h : s.Paired pick w s') :
    PairedFrom pick w (Eval.bindParams byRef id ps args s)
      (Eval.bindParams byRef id ps args' s') := by
  obtain ⟨hgiven, hpairs⟩ := hpasses
  induction ps generalizing args args' w s s' with
  | nil => exact .refl h
  | cons p ps ih =>
    cases hgiven with
    | nil => exact .refl h
    | @cons i j is js hij hgiven =>
      have hrest : Passes byRef w s s' ps is js :=
        ⟨hgiven, fun x hx => hpairs x (List.mem_cons_of_mem _ hx)⟩
      simp only [Eval.bindParams]
      by_cases hbyRef : p.byRef.getD byRef = true
      · have hslot : w.Pairs i j := hpairs (p, i, j) List.mem_cons_self hbyRef
        have hbound : Passes byRef w (s.bind id p.name i) (s'.bind id p.name j) ps is js :=
          hrest.of_slots rfl rfl
        simp only [if_pos hbyRef]
        exact ih (h.bind id p.name hslot) hbound.given hbound.pairs
      · have hnew := hrest.of_newSlot (w.le_push ⟨s'.slots.size⟩) (s.slot i) (s.slot i)
        have hbound : Passes byRef (w.push ⟨s'.slots.size⟩) (s.declare id p.name (s.slot i)).2
            (s'.declare id p.name (s.slot i)).2 ps is js := hnew.of_slots rfl rfl
        simp only [if_neg hbyRef, ← hij.slot_eq]
        exact .of_le (w.le_push _)
          (ih (h.declare id p.name (s.slot i)) hbound.given hbound.pairs)

theorem activate {byRef : Bool} (d : FunctionDecl) (home : ScopeId) {args args' : List SlotId}
    (hpasses : Passes byRef w s s' d.params args args') (h : s.Paired pick w s') :
    (Eval.activate byRef d home args s).1
        = (Eval.activate byRef (d.copying pick) home args' s').1 ∧
      PairedFrom pick w (Eval.activate byRef d home args s).2
        (Eval.activate byRef (d.copying pick) home args' s').2 := by
  have hchild := h.newChild home (Eval.resultName d)
  have hscope := h.newChild_eq home (Eval.resultName d)
  have hname : Eval.resultName (d.copying pick) = Eval.resultName d := by
    rw [Eval.resultName, Eval.resultName, FunctionDecl.kind_copying, FunctionDecl.name_copying]
  have hnew : Passes byRef (w.push ⟨s'.slots.size⟩) (s.newChild home (Eval.resultName d)).2
      (s'.newChild home (Eval.resultName d)).2 d.params args args' :=
    (hpasses.of_newSlot (w.le_push _) .empty .empty).of_slots rfl rfl
  simp only [Eval.activate, hname, FunctionDecl.params_copying, FunctionDecl.body_copying, ← hscope]
  have hentered (scope : ScopeId) :=
    (hchild.bindParams scope hnew).andThen fun h => h.hoist scope d.body
  exact ⟨trivial, .of_le (w.le_push _) (hentered _)⟩

end Paired

end Store

end PageScript
