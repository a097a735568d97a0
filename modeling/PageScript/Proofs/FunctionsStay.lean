import PageScript.Proofs.Eval.Discipline
import PageScript.Proofs.Host
import PageScript.Proofs.Store.Bindings

/-!
# Functions stay where they are

A function is in the slot that its declaration made for it, or where the host has put it, and never
gets anywhere else.  Where a value is wanted a function is called, so no expression yields a
function; what is passed, assigned and returned holds none; and names that lead to a function lead to
the slot that was made for it.  Each of these rests on the others, so they are shown together, as a
discipline of whole runs (`functionsStay`).

Callbacks of the host are asked to neither return nor store functions (`Callback.LeavesFunctions`),
and of the host's own routines the one that reads any variable by name is left out.

Main statement: `Session.functions_stay`.
-/

namespace PageScript

open Eval Runner

/-! ## slots that gain functions -/

namespace Store

variable {s s' s₁ s₂ : Store} {F : FunctionDecl → Prop} {C : ClassDecl → Prop} {c : ScopeId}

/-- no slot comes to hold a function -/
def GainsNone (s s' : Store) : Prop :=
  ∀ id f, s'.slot id = .function f → s.slot id = .function f

theorem GainsNone.refl (s : Store) : s.GainsNone s := fun _ _ h => h

theorem GainsNone.trans (h : s.GainsNone s₁) (h₁ : s₁.GainsNone s₂) : s.GainsNone s₂ :=
  fun id f hf => h id f (h₁ id f hf)

theorem gainsNone_newSlot (s : Store) {v : Value} (hv : v.NoFunction) :
    s.GainsNone (s.newSlot v).2 := by
  intro id f hf
  rw [slot_newSlot] at hf
  split at hf
  · exact absurd hf (hv f)
  · exact hf

theorem gainsNone_setSlot (s : Store) (id : SlotId) {v : Value} (hv : v.NoFunction) :
    s.GainsNone (s.setSlot id v) := by
  intro other f hf
  rw [slot_setSlot] at hf
  split at hf
  · exact absurd hf (hv f)
  · exact hf

/-- a new slot holds a new function, which is declared -/
def Declared (s s' : Store) (id : SlotId) (f : FunctionId) : Prop :=
  s.slots.size ≤ id.index ∧ s.functions.size ≤ f.index ∧ ∃ d home, s'.function f = .script d home

theorem lt_of_function_eq_script {f : FunctionId} {d : FunctionDecl} {home : ScopeId}
    (h : s.function f = .script d home) : f.index < s.functions.size := by
  by_contra hlt
  rw [function, Array.getElem?_eq_none (not_lt.mp hlt)] at h
  cases h

theorem gained_declareFunction (s : Store) (c : ScopeId) (d : FunctionDecl) {id : SlotId}
    {f : FunctionId} (h : (s.declareFunction c d).2.slot id = .function f) :
    s.slot id = .function f ∨ s.Declared (s.declareFunction c d).2 id f := by
  have hslot : ((s.newFunction (.script d c)).2.newSlot (.function ⟨s.functions.size⟩)).2.slot id
      = .function f := h
  rw [slot_newSlot] at hslot
  split at hslot
  · rename_i hid
    obtain rfl := Value.function.inj hslot
    refine .inr ⟨hid.ge, le_rfl, d, c, ?_⟩
    exact (s.function_newFunction (.script d c) ⟨s.functions.size⟩).trans (if_pos rfl)
  · exact .inl hslot

theorem Furnish.gained (h : s.Furnish F C c s') {id : SlotId} {f : FunctionId}
    (hf : s'.slot id = .function f) : s.slot id = .function f ∨ s.Declared s' id f := by
  cases h with
  | dim n => exact .inl (s.gainsNone_newSlot Value.noFunction_empty id f hf)
  | function _ => exact s.gained_declareFunction c _ hf
  | classDecl _ => exact .inl hf
  | explicit => exact .inl hf
  | byRef _ _ => exact .inl hf
  | byValue _ harg => exact .inl (s.gainsNone_newSlot harg.2 id f hf)
  | field _ _ => exact .inl (s.gainsNone_newSlot Value.noFunction_empty id f hf)
  | method _ _ => exact s.gained_declareFunction c _ hf

/-- furnishing a scope only makes slots for functions that it declares -/
theorem Furnishes.gained (h : s.Furnishes F C c s') {id : SlotId} {f : FunctionId}
    (hf : s'.slot id = .function f) : s.slot id = .function f ∨ s.Declared s' id f := by
  induction h with
  | refl => exact .inl hf
  | tail hsteps hstep ih =>
    rcases hstep.gained hf with hf | ⟨hid, hfun, hdeclared⟩
    · refine (ih hf).imp_right ?_
      rintro ⟨hid, hfun, d, home, heq⟩
      exact ⟨hid, hfun, d, home, (hstep.grows.function f (lt_of_function_eq_script heq)).trans heq⟩
    · exact .inr ⟨(Furnishes.grows hsteps).slots.trans hid,
        (Furnishes.grows hsteps).functions.trans hfun, hdeclared⟩

/-- the functions and scopes are what they were, no slot has come to hold a function, and names have
got bound to new slots at most -/
structure Still (s s' : Store) : Prop where
  gainsNone : s.GainsNone s'
  functions : s'.functions = s.functions
  scopes : s'.scopes.size = s.scopes.size
  slots : s.slots.size ≤ s'.slots.size
  bindings : ∀ c n id, (s'.scope c).bindings.find? n = some id →
    (s.scope c).bindings.find? n = some id ∨ s.slots.size ≤ id.index

namespace Still

theorem refl (s : Store) : s.Still s := ⟨.refl s, rfl, rfl, le_rfl, fun _ _ _ => .inl⟩

theorem trans (h : s.Still s₁) (h₁ : s₁.Still s₂) : s.Still s₂ where
  gainsNone := h.gainsNone.trans h₁.gainsNone
  functions := h₁.functions.trans h.functions
  scopes := h₁.scopes.trans h.scopes
  slots := h.slots.trans h₁.slots
  bindings c n id hid := by
    rcases h₁.bindings c n id hid with hold | hnew
    · exact h.bindings c n id hold
    · exact .inr (h.slots.trans hnew)

theorem newSlot (s : Store) {v : Value} (hv : v.NoFunction) : s.Still (s.newSlot v).2 :=
  ⟨s.gainsNone_newSlot hv, rfl, rfl, (s.lt_newSlot v).le, fun _ _ _ => .inl⟩

theorem setSlot (s : Store) (id : SlotId) {v : Value} (hv : v.NoFunction) :
    s.Still (s.setSlot id v) :=
  ⟨s.gainsNone_setSlot id hv, rfl, rfl, (Array.size_setIfInBounds ..).ge, fun _ _ _ => .inl⟩

theorem setExplicit (s : Store) (c : ScopeId) (b : Bool) : s.Still (s.setExplicit c b) := by
  refine ⟨.refl s, rfl, Array.size_modify, le_rfl, fun x n id hid => .inl ?_⟩
  rw [Store.setExplicit, scope_modifyScope, apply_ite Scope.bindings, ite_self] at hid
  exact hid

theorem declare (s : Store) (c : ScopeId) (n : String) {v : Value} (hv : v.NoFunction) :
    s.Still (s.declare c n v).2 := by
  refine ⟨s.gainsNone_newSlot hv, rfl, Array.size_modify, (s.lt_newSlot v).le, fun x m id hid => ?_⟩
  rcases find?_bind hid with hold | ⟨-, rfl⟩
  · exact .inl hold
  · exact .inr le_rfl

theorem define (s : Store) (o : ObjectId) (n : String) {v : Value} (hv : v.NoFunction) :
    s.Still (s.define o n v).2 :=
  ⟨s.gainsNone_newSlot hv, rfl, rfl, (s.lt_newSlot v).le, fun _ _ _ => .inl⟩

theorem bindsPlain (h : s.Still s') : s.BindsPlain s' :=
  fun c n id hid => (h.bindings c n id hid).imp_right .inl

end Still

/-- a function that was not in a slot before is declared anew, together with the slot -/
theorem Change.gained {block : Block} {top : ScopeId} {quiet : Store → Store → Prop}
    (h : s.Change block top Store.Plain quiet s') (hquiet : quiet s s' → s.GainsNone s')
    {id : SlotId} {f : FunctionId} (hf : s'.slot id = .function f) :
    s.slot id = .function f ∨ s.Declared s' id f := by
  -- a scope that is furnished later adds no function by itself
  have hopened : ∀ {s₁ : Store}, s.GainsNone s₁ → s.Grows s₁ →
      s₁.slot id = .function f ∨ s₁.Declared s' id f →
      s.slot id = .function f ∨ s.Declared s' id f := by
    rintro s₁ hnone hgrows (hf | ⟨hid, hfun, hdeclared⟩)
    · exact .inl (hnone id f hf)
    · exact .inr ⟨hgrows.slots.trans hid, hgrows.functions.trans hfun, hdeclared⟩
  cases h with
  | quiet hchange => exact .inl (hquiet hchange id f hf)
  | hoist =>
    exact (s.equips_hoist top block).gained hf
  | @newInstance home _ d _ =>
    have hnone : s.GainsNone (s.opened d home) := s.gainsNone_newSlot Value.noFunction_empty
    exact hopened hnone (s.grows_opened d home) ((s.equips_newInstance d home).gained hf)
  | @enter _ d home args byRef _ hargs =>
    have hnone : s.GainsNone (s.newChild home (resultName d)).2 :=
      s.gainsNone_newSlot Value.noFunction_empty
    exact hopened hnone (s.grows_newScope _ _ _) ((s.equips_activate byRef home hargs).gained hf)

/-- of two kinds of quiet changes, one can be told apart -/
theorem Change.of_or {block : Block} {top : ScopeId} {passed : Store → SlotId → Prop}
    {quiet other : Store → Store → Prop}
    (h : s.Change block top passed (fun s s' => quiet s s' ∨ other s s') s') :
    s.Change block top passed quiet s' ∨ other s s' := by
  cases h with
  | quiet hchange => exact hchange.imp_left .quiet
  | hoist => exact .inl .hoist
  | newInstance hd => exact .inl (.newInstance hd)
  | enter byRef hf hargs => exact .inl (.enter byRef hf hargs)

/-- declarations, members and parameters get bound to slots that are new or hold no function -/
theorem Change.bindsPlain {block : Block} {top : ScopeId} {quiet : Store → Store → Prop}
    (h : s.Change block top Store.Plain quiet s') (hquiet : quiet s s' → s.BindsPlain s') :
    s.BindsPlain s' := by
  cases h with
  | quiet hchange => exact hquiet hchange
  | hoist => exact (s.equips_hoist top block).adds.bindsPlain
  | @newInstance home _ d _ =>
    exact ((Adds.opened s d home).trans (s.equips_newInstance d home).adds).bindsPlain
  | @enter _ d home args byRef _ hargs =>
    have hchild := Adds.newScope s (home :: (s.scope home).outer) (s.scope home).isExplicit
      (resultName d)
    exact (hchild.trans (s.equips_activate byRef home hargs).adds).bindsPlain

end Store

/-! ## routines of the host -/

/-- the routine that can bring functions out is not offered -/
abbrev Store.LooksNowhere (s : Store) : Prop := s.Offers (· ≠ .look)

/-- a callback that neither returns functions nor stores them, and leaves what is there in order -/
def Callback.LeavesFunctions (f : Callback) : Prop :=
  ∀ ⦃s⦄ (held : List Ref) (home : ScopeId) ⦃args⦄, Store.InOrder s → s.LooksNowhere →
    (∀ arg ∈ args, s.Plain arg) →
    let answered := f held home args s
    (∀ g, answered.1.result ≠ .ok (.function g)) ∧ s.GainsNone answered.2 ∧ s.Grows answered.2 ∧
      answered.2.InOrder ∧ answered.2.LooksNowhere

def Env.LeavesFunctions (env : Env) : Prop := ∀ f ∈ env.callbacks, f.LeavesFunctions

theorem Env.LeavesFunctions.callback {env : Env} (h : env.LeavesFunctions) (index : Nat) :
    (env.callback index).LeavesFunctions := by
  unfold Env.callback
  cases hf : env.callbacks[index]? with
  | none => exact fun s _ _ _ hs hlooks _ => ⟨fun _ h => (nomatch h), .refl s, .refl s, hs, hlooks⟩
  | some f => exact h f (Array.mem_of_getElem? hf)

/-- a callback of the host has answered -/
def Env.Answers (env : Env) (s s' : Store) : Prop :=
  ∃ f ∈ env.callbacks, ∃ held home args, (∀ arg ∈ args, s.Plain arg) ∧ s' = (f held home args s).2

/-- where there is no callback to answer, nothing happens -/
theorem Env.answers_callback (env : Env) (index : Nat) (held : List Ref) (home : ScopeId)
    {args : List SlotId} {s : Store} (hargs : ∀ arg ∈ args, s.Plain arg) :
    s.Still (env.callback index held home args s).2 ∨
      env.Answers s (env.callback index held home args s).2 := by
  unfold Env.callback
  cases hf : env.callbacks[index]? with
  | none => exact .inl (.refl s)
  | some f => exact .inr ⟨f, Array.mem_of_getElem? hf, held, home, args, hargs, rfl⟩

/-- a store that goes on without a function in a new place -/
structure Store.Calm (s s' : Store) : Prop where
  inOrder : s'.InOrder
  looksNowhere : s'.LooksNowhere
  grows : s.Grows s'
  still : s.Still s'

namespace Store.Calm

variable {s s₁ s₂ : Store}

theorem refl (hs : s.InOrder) (hlooks : s.LooksNowhere) : s.Calm s := ⟨hs, hlooks, .refl s, .refl s⟩

theorem trans (h : s.Calm s₁) (h₁ : s₁.Calm s₂) : s.Calm s₂ :=
  ⟨h₁.inOrder, h₁.looksNowhere, h.grows.trans h₁.grows, h.still.trans h₁.still⟩

theorem newSlot (hs : s.InOrder) (hlooks : s.LooksNowhere) {v : Value} (hv : v.NoFunction) :
    s.Calm (s.newSlot v).2 :=
  ⟨hs.newSlot v, hlooks, s.grows_newSlot v, .newSlot s hv⟩

theorem setSlot (hs : s.InOrder) (hlooks : s.LooksNowhere) (id : SlotId) {v : Value}
    (hv : v.NoFunction) : s.Calm (s.setSlot id v) :=
  ⟨hs.setSlot id hv, hlooks, s.grows_setSlot id hv, .setSlot s id hv⟩

theorem setExplicit (hs : s.InOrder) (hlooks : s.LooksNowhere) (c : ScopeId) (b : Bool) :
    s.Calm (s.setExplicit c b) :=
  ⟨hs.modifyScope c fun _ => ⟨rfl, rfl, rfl⟩, hlooks, s.grows_modifyScope c fun _ => rfl,
    .setExplicit s c b⟩

theorem declare (hs : s.InOrder) (hlooks : s.LooksNowhere) (c : ScopeId) (n : String) {v : Value}
    (hv : v.NoFunction) : s.Calm (s.declare c n v).2 :=
  ⟨hs.declare c n v, hlooks, s.grows_declare c n v, .declare s c n hv⟩

theorem define (hs : s.InOrder) (hlooks : s.LooksNowhere) (o : ObjectId) (n : String) {v : Value}
    (hv : v.NoFunction) : s.Calm (s.define o n v).2 :=
  ⟨(hs.newSlot v).addField o n (s.lt_newSlot v), hlooks,
    (s.grows_newSlot v).trans (grows_addField _ o n _), .define s o n hv⟩

end Store.Calm

namespace Eval

variable {α β : Type} {Q : α → Prop} {U : β → Prop} {s : Store}

/-- an evaluation that leaves functions where they are, yields what `Q` says, and does not fail for
a scope that is gone -/
def Leaves (s : Store) (Q : α → Prop) (x : Eval α) : Prop :=
  ∀ (env : Env) (m : Machine), m.store = s → s.InOrder → s.LooksNowhere →
    let o := x.outcome env m
    s.Calm o.2.store ∧ (∀ a, o.1 = .ok a → Q a) ∧ ∀ e, o.1 = .error e → e.fault ≠ .scopeDropped

theorem leaves_pure {a : α} (ha : Q a) : Leaves s Q (pure a) := by
  rintro env m rfl hs hlooks
  refine ⟨.refl hs hlooks, fun b hb => ?_, fun e he => nomatch he⟩
  obtain rfl : a = b := Except.ok.inj hb
  exact ha

theorem leaves_fail (l : Location) {f : RuntimeFault} (hf : f ≠ .scopeDropped) :
    Leaves s Q (fail l f : Eval α) := by
  rintro env m rfl hs hlooks
  refine ⟨.refl hs hlooks, by rintro b ⟨⟩, fun e he => ?_⟩
  obtain rfl : (⟨l, f⟩ : RuntimeError) = e := Except.error.inj he
  exact hf

theorem Leaves.bind {x : Eval α} {f : α → Eval β} (hx : Leaves s Q x)
    (hf : ∀ s' a, s.Calm s' → Q a → Leaves s' U (f a)) : Leaves s U (x >>= f) := by
  intro env m hm hs hlooks
  obtain ⟨hcalm, hresult, herror⟩ := hx env m hm hs hlooks
  show _ ∧ _
  rw [outcome_bind]
  generalize x.outcome env m = o at hcalm hresult herror ⊢
  rcases o with ⟨e | a, m₁⟩
  · refine ⟨hcalm, fun b hb => (nomatch hb), fun e' he' => ?_⟩
    exact herror e' (congrArg Except.error (Except.error.inj he'))
  · obtain ⟨hcalm₁, hrest⟩ :=
      hf m₁.store a hcalm (hresult a rfl) env m₁ rfl hcalm.inOrder hcalm.looksNowhere
    exact ⟨hcalm.trans hcalm₁, hrest⟩

theorem leaves_store : Leaves s (fun a => s = a) store := by
  rintro env m rfl hs hlooks
  exact ⟨.refl hs hlooks, fun a ha => Except.ok.inj ha, fun e he => nomatch he⟩

theorem leaves_modifyStore {f : Store → Store} (hf : s.InOrder → s.LooksNowhere → s.Calm (f s)) :
    Leaves s (fun _ => True) (modifyStore f) := by
  rintro env m rfl hs hlooks
  exact ⟨hf hs hlooks, fun _ _ => trivial, fun e he => nomatch he⟩

theorem leaves_write (v : Value) : Leaves s (fun _ => True) (write v) := by
  rintro env m rfl hs hlooks
  exact ⟨.refl hs hlooks, fun _ _ => trivial, fun e he => nomatch he⟩

theorem leaves_forM {γ : Type} {f : γ → Eval Unit} (hf : ∀ s a, Leaves s (fun _ => True) (f a))
    (as : List γ) : ∀ s, Leaves s (fun _ => True) (as.forM f) := by
  induction as with
  | nil => exact fun _ => leaves_pure trivial
  | cons a as ih => exact fun s => (hf s a).bind fun s' _ _ _ => ih s'

theorem leaves_attempt_assign (l : Location) (c : ScopeId) (n : String) {v : Value}
    (hv : v.NoFunction) :
    Leaves s (fun _ => True) (Routine.attempt l (Action.assign c n v)) := by
  rintro env m rfl hs hlooks
  have hcalm : ∀ H, m.store.Calm ((Action.assign c n v).outcome H m.store).2 := by
    intro H
    have hresolve : m.store.Calm ((Action.resolve c n).outcome H m.store).2 := by
      rw [Action.outcome_resolve]
      rcases m.store.find H .variable n c with f | _ | slot | o
      · exact .refl hs hlooks
      · show Store.Calm _ (if _ then _ else _ : _ × Store).2
        split
        · exact .refl hs hlooks
        · exact .declare hs hlooks c n Value.noFunction_empty
      · exact .refl hs hlooks
      · exact .newSlot hs hlooks fun _ h => nomatch h
    rw [Action.outcome_assign]
    generalize (Action.resolve c n).outcome H m.store = o at hresolve ⊢
    rcases o with ⟨f | slot, s₁⟩
    · exact hresolve
    · exact hresolve.trans (.setSlot hresolve.inOrder hresolve.looksNowhere slot hv)
  show _ ∧ _
  rw [Routine.attempt, outcome_tryCatch, outcome_act]
  have hcalm := hcalm (env.heldIn m)
  generalize (Action.assign c n v).outcome (env.heldIn m) m.store = o at hcalm ⊢
  rcases o with ⟨f | a, s₁⟩
  · refine ⟨hcalm, fun b hb => (nomatch hb), fun e he => ?_⟩
    obtain rfl := Except.error.inj he
    exact fun h => nomatch h
  · exact ⟨hcalm, fun _ _ => trivial, fun e he => nomatch he⟩

theorem leaves_incrementSlot (s : Store) (id : SlotId) :
    Leaves s (fun _ => True) (Routine.incrementSlot id) := by
  refine Leaves.bind (Q := fun _ => True) ?_ fun s' v _ _ => ?_
  · exact leaves_store.bind fun _ _ _ _ => leaves_pure trivial
  · cases v with
    | integer n =>
      exact leaves_modifyStore fun hs hlooks => .setSlot hs hlooks id fun _ h => nomatch h
    | _ => exact leaves_pure trivial

/-- what a routine of the host does with arguments that hold no functions, unless it is a callback -/
theorem leaves_call {r : Routine} (hr : r ≠ .look) (hcallback : ∀ index, r ≠ .callback index)
    (l : Location) (home : ScopeId) {args : List SlotId} (hargs : ∀ arg ∈ args, s.Plain arg) :
    Leaves s Value.NoFunction (r.call l home args) := by
  refine leaves_store.bind ?_
  rintro s' _ hcalm rfl
  have hrefuse : ∀ message, Leaves s' Value.NoFunction (Routine.refuse l message) :=
    fun _ => leaves_fail l fun h => nomatch h
  have hempty : ∀ {s' : Store}, Leaves s' Value.NoFunction (pure .empty) :=
    leaves_pure Value.noFunction_empty
  split
  · exact (leaves_write _).bind fun _ _ _ _ => hempty
  · exact hrefuse _
  · exact hempty
  · cases s.slot _ with
    | integer n => exact leaves_pure fun _ h => nomatch h
    | _ => exact hrefuse _
  · exact hrefuse _
  · exact leaves_pure fun _ h => nomatch h
  · exact leaves_pure fun _ h => nomatch h
  · exact hrefuse _
  · exact (leaves_forM leaves_incrementSlot args s').bind fun _ _ _ _ => hempty
  · rename_i a b
    have hset : ∀ (s' : Store) (id : SlotId) {arg : SlotId}, arg ∈ [a, b] →
        Leaves s' (fun _ => True) (setSlot id (s.slot arg)) := fun s' id arg harg =>
      leaves_modifyStore fun hs hlooks => .setSlot hs hlooks id (hargs arg harg).2
    refine (hset s' a (by simp)).bind fun s₁ _ _ _ => ?_
    exact (hset s₁ b (by simp)).bind fun _ _ _ _ => hempty
  · exact hrefuse _
  · exact leaves_pure fun _ h => nomatch h
  · exact hrefuse _
  · exact hrefuse _
  · exact absurd rfl hr
  · exact hrefuse _
  · rename_i name value
    exact (leaves_attempt_assign l home _ (hargs value (by simp)).2).bind fun _ _ _ _ => hempty
  · exact hrefuse _
  · split
    · refine (leaves_modifyStore fun hs hlooks => .setExplicit hs hlooks home _).bind ?_
      exact fun _ _ _ _ => leaves_pure fun _ h => nomatch h
    · exact (leaves_pure (Q := fun _ => True) trivial).bind fun _ _ _ _ =>
        leaves_pure fun _ h => nomatch h
  · exact absurd rfl (hcallback _)

theorem outcome_forM_write (vs : List Value) (env : Env) (m : Machine) :
    ∃ output, (vs.forM write).outcome env m = (.ok (), { m with output }) := by
  induction vs generalizing m with
  | nil => exact ⟨m.output, rfl⟩
  | cons v vs ih =>
    obtain ⟨output, hrest⟩ := ih { m with output := m.output.push v }
    exact ⟨output, hrest⟩

/-- a callback answers, and writes what it answers with -/
theorem outcome_call_callback (index : Nat) (l : Location) (home : ScopeId) (args : List SlotId)
    (env : Env) (m : Machine) :
    let answered := env.callback index (env.heldIn m) home args m.store
    ∃ output, ((Routine.callback index).call l home args).outcome env m
      = (answered.1.result.mapError fun message => ⟨l, .host message⟩,
          { m with store := answered.2, output }) := by
  intro answered
  obtain ⟨output, hwritten⟩ :=
    outcome_forM_write answered.1.written env { m with store := answered.2 }
  refine ⟨output, ?_⟩
  rw [Routine.call, outcome_bind]
  show (answer index home args >>= _ : Eval Value).outcome env m = _
  rw [outcome_bind, outcome_answer]
  show (answered.1.written.forM write >>= _ : Eval Value).outcome env
    { m with store := answered.2 } = _
  rw [outcome_bind, hwritten]
  cases hresult : answered.1.result with
  | ok v => rfl
  | error message => rfl

/-- a callback that leaves functions where they are yields none -/
theorem call_callback_spec {env : Env} (henv : env.LeavesFunctions) (index : Nat) (l : Location)
    (home : ScopeId) {args : List SlotId} (held : List Ref) {m : Machine} (hs : m.store.InOrder)
    (hlooks : m.store.LooksNowhere) (hargs : ∀ arg ∈ args, m.store.Plain arg) :
    let o := ((Routine.callback index).call l home args).outcome { env with held } m
    ((o.2.store.InOrder ∧ o.2.store.LooksNowhere) ∧ m.store.Grows o.2.store ∧
      (m.store.Still o.2.store ∨ env.Answers m.store o.2.store)) ∧
      (∀ v, o.1 = .ok v → v.NoFunction) ∧ ∀ e, o.1 = .error e → e.fault ≠ .scopeDropped := by
  obtain ⟨output, houtcome⟩ := outcome_call_callback index l home args { env with held } m
  have hanswer := henv.callback index ({ env with held }.heldIn m) home hs hlooks hargs
  have hstore := env.answers_callback index ({ env with held }.heldIn m) home hargs
  dsimp only
  rw [houtcome]
  show _ ∧ _
  generalize hanswered : { env with held }.callback index _ home args m.store = answered
  rw [show env.callback index _ home args m.store = answered from hanswered] at hanswer hstore
  obtain ⟨⟨result, written⟩, store⟩ := answered
  obtain ⟨hresult, -, hgrows, hs', hlooks'⟩ := hanswer
  refine ⟨⟨⟨hs', hlooks'⟩, hgrows, hstore⟩, ?_, ?_⟩
  · rintro v hv g rfl
    cases result with
    | ok v => exact hresult g (congrArg Except.ok (Except.ok.inj hv))
    | error message => cases hv
  · intro e he
    cases result with
    | ok v => cases he
    | error message =>
      obtain rfl := Except.error.inj he
      exact fun h => nomatch h

end Eval

/-! ## the discipline -/

/-- expressions yield no functions, and nothing that is passed, assigned or returned holds one -/
def functionsStay (env : Env) (henv : env.LeavesFunctions) (block : Block) (top : ScopeId) :
    Discipline where
  env := env
  block := block
  top := top
  ok s := s.InOrder ∧ s.LooksNowhere
  le := Store.Grows
  le_refl := .refl
  le_trans := .trans
  quiet := Store.Still
  quiet_refl := .refl
  quiet_trans := .trans
  hosted s s' := s.Still s' ∨ env.Answers s s'
  hosted_quiet := .inl
  scope _ s c := c.index < s.scopes.size
  scope_mono _ hle hc := hc.trans_le hle.scopes
  value _ v := v.NoFunction
  value_mono _ hv := hv
  value_data := Value.noFunction_of_isReference
  slot := Store.Plain
  slot_mono hle hid := hle.plain hid
  value_slot _ hid := hid.2
  place s _ id := id.index < s.slots.size
  place_slot hid := hid.1
  slot_place _ hid hv := ⟨hid, hv⟩
  callable _ _ _ := True
  callable_mono _ _ := trivial
  callable_place _ _ _ := trivial
  callable_value _ := trivial
  moment _ _ _ := True
  admit_start _ _ := trivial
  error _ _ _ := True
  error_mono _ _ := trivial
  error_other _ := trivial
  error_outer _ _ _ _ := trivial
  error_home _ _ _ _ := trivial
  place_found hok _ hfound := by
    obtain ⟨p, -, hhere⟩ := Store.exists_of_searchFrom _ hfound
    rcases Store.slot_of_findHere hhere with hbound | ⟨hp, rfl⟩
    · exact hok.1.bound _ _ _ hbound
    · exact (hok.1.result p hp).1
  value_owner _ _ _ := fun _ h => nomatch h
  place_member hok _ hfield := hok.1.field _ _ _ hfield
  admit_newSlot {s v} hok hv := by
    have hcalm := Store.Calm.newSlot hok.1 hok.2 hv
    exact ⟨⟨⟨hcalm.inOrder, hcalm.looksNowhere⟩, hcalm.grows, hcalm.still⟩, s.plain_newSlot hv⟩
  admit_setSlot {_ _ id _} hok _ hv := by
    have hcalm := Store.Calm.setSlot hok.1 hok.2 id hv
    exact ⟨⟨hcalm.inOrder, hcalm.looksNowhere⟩, hcalm.grows, hcalm.still⟩
  admit_declare {_ s c n} hok _ _ := by
    have hcalm := Store.Calm.declare hok.1 hok.2 c n Value.noFunction_empty
    exact ⟨⟨⟨hcalm.inOrder, hcalm.looksNowhere⟩, hcalm.grows, hcalm.still⟩, s.lt_newSlot .empty⟩
  admit_define {_ o n _} hok _ _ hv := by
    have hcalm := Store.Calm.define hok.1 hok.2 o n hv
    exact ⟨⟨hcalm.inOrder, hcalm.looksNowhere⟩, hcalm.grows, hcalm.still⟩
  admit_hoist {_ s} hok _ := by
    have hsteps := s.equips_hoist top block
    exact ⟨⟨hsteps.inOrder hok.1, hsteps.furnished.offers hok.2⟩, hsteps.grows⟩
  admit_newInstance {_ s _ home _ d} hok hc _ _ _ := by
    have hsteps := s.equips_newInstance d home
    have hlooks : (s.opened d home).LooksNowhere := hok.2
    exact ⟨⟨⟨hsteps.inOrder (hok.1.opened d home), hsteps.furnished.offers hlooks⟩,
      s.grows_newInstance d home⟩, fun _ h => (nomatch h),
      hc.trans_le (s.grows_newInstance d home).scopes⟩
  admit_enter {_ s _ _ d home args} hok _ _ _ _ hargs := by
    have hsteps := s.equips_activate env.config.byRef (d := d) home hargs
    have hlooks : (s.newChild home (resultName d)).2.LooksNowhere := hok.2
    exact ⟨⟨⟨hsteps.inOrder (hok.1.newScope _ _ _), hsteps.furnished.offers hlooks⟩,
      s.grows_activate _ home hargs⟩, s.lt_activate _ home hargs⟩
  slot_result hok hc := hok.1.result _ hc
  admit_routine held {_ m _ f n home r args l} hok _ _ hfunction hargs := by
    have hr := hok.2 f n home r hfunction
    by_cases hcallback : ∃ index, r = .callback index
    · obtain ⟨index, rfl⟩ := hcallback
      exact call_callback_spec henv index l home held hok.1 hok.2 hargs
    · obtain ⟨hcalm, hrest⟩ := leaves_call hr (fun index h => hcallback ⟨index, h⟩) l home hargs
        { env with held } m rfl hok.1 hok.2
      exact ⟨⟨⟨hcalm.inOrder, hcalm.looksNowhere⟩, hcalm.grows, .inl hcalm.still⟩, hrest⟩

/-! ## calls of values -/

/-- a call of what an expression yields, other than of a path -/
theorem Eval.outcome_call_value {n : Nat} {c : ScopeId} {e : Expr} {env : Env} {m : Machine}
    (hpath : ∀ l ns, e ≠ .path l ns)
    (hvalue : ∀ f, ((eval (invoke n) c e).outcome env m).1 ≠ .ok (.function f)) (l : Location)
    (args : List Expr) :
    (eval (invoke n) c (.call l e args)).outcome env m
      = match (eval (invoke n) c e).outcome env m with
        | (.ok _, m') => (.error ⟨e.location, .notCallable e.source⟩, m')
        | (.error err, m') => (.error err, m') := by
  have hcallee : calleeValue (invoke n) c (eval (invoke n) c e) e = eval (invoke n) c e := by
    cases e with
    | path l ns => exact absurd rfl (hpath l ns)
    | _ => rfl
  rw [Eval.eval, callee, hcallee, outcome_bind, outcome_bind]
  generalize (eval (invoke n) c e).outcome env m = o at hvalue ⊢
  rcases o with ⟨err | v, m'⟩
  · rfl
  · cases v with
    | function f => exact absurd rfl (hvalue f)
    | _ => rfl

/-! ## whole sessions -/

namespace Session

/-- the sessions of a host that leaves functions to scripts: it registers values, routines other
than `look`, callbacks that leave functions where they are, and objects of its own, and in between
blocks are run -/
abbrev LeavesFunctions : Session → Prop := Under fun
  | _, .pin _ | _, .clearOutput | _, .register _ _ | _, .registerResponse => True
  | _, .newObject _ | _, .define _ _ _ => True
  | s, .newRoutine _ home routine => home = s.globals ∧ routine ≠ .look
  | _, .bring f => f.LeavesFunctions
  | s, .runBlock _ scope _ => scope = s.globals
  | _, _ => False

namespace LeavesFunctions

variable {s : Session}

theorem env (h : s.LeavesFunctions) : s.env.LeavesFunctions :=
  h.callbacks fun _ _ hf => hf

theorem kept (h : s.LeavesFunctions) (block : Block) (steps : Nat)
    (hstore : s.store.InOrder ∧ s.store.LooksNowhere)
    (hglobals : s.globals.index < s.store.scopes.size) :
    (functionsStay s.env h.env block s.globals).Kept s.env.held s.store [] (fun _ _ => True)
      (Trace.run s.globals block s.env ⟨s.store, steps, s.output⟩) :=
  Discipline.run (D := functionsStay s.env h.env block s.globals) (m := ⟨s.store, steps, s.output⟩)
    hstore hglobals

/-- the store is in order, and the global scope is there -/
theorem inOrder (h : s.LeavesFunctions) :
    (s.store.InOrder ∧ s.store.LooksNowhere) ∧ s.globals.index < s.store.scopes.size := by
  have hroutine : ∀ {s : Store} {n : String} {home : ScopeId} {routine : Routine},
      s.LooksNowhere → routine ≠ .look →
      (s.newFunction (.host n home routine)).2.LooksNowhere := by
    intro s n home routine hlooks hr f m x r hf
    rw [Store.function_newFunction] at hf
    split at hf
    · exact (Function.host.inj hf).2.2 ▸ hr
    · exact hlooks f m x r hf
  have hdefine : ∀ {s : Store} (o : ObjectId) (name : String) (v : Value), s.InOrder →
      (s.define o name v).2.InOrder := fun {s} o name v hs =>
    (hs.newSlot v).addField o name (s.lt_newSlot v)
  refine h.upheld (I := fun globals store =>
      (store.InOrder ∧ store.LooksNowhere) ∧ globals.index < store.scopes.size)
    { start := fun isExplicit => ⟨⟨Store.inOrder_empty.newScope [] isExplicit none, ?_⟩,
        Nat.zero_lt_one⟩
      register := fun {s name v} _ _ ih => ⟨⟨ih.1.1.declare s.globals name v, ih.1.2⟩,
        ih.2.trans_le (s.store.grows_declare s.globals name v).scopes⟩
      registerResponse := fun {s} _ _ ih => ?_
      newRoutine := fun _ hr ih => ⟨⟨ih.1.1.newFunction _, hroutine ih.1.2 hr.2⟩, ih.2⟩
      newObject := fun {_ className} _ _ ih =>
        ⟨⟨ih.1.1.newObject className none, ih.1.2⟩, ih.2⟩
      define := fun {_ id name v} _ _ ih => ⟨⟨hdefine id name v ih.1.1, ih.1.2⟩, ih.2⟩
      runBlock := fun {s steps _ block} hs hscope ih => ?_ }
  · rintro f n home _ hf
    exact (Function.host.inj hf).2.2 ▸ fun h => nomatch h
  · have hresponse : (s.store.newResponse s.globals).2.InOrder :=
      hdefine _ "write" _ ((ih.1.1.newFunction _).newObject "Response" none)
    have hlooks : s.registerResponse.store.LooksNowhere :=
      hroutine (n := "write") ih.1.2 fun h => nomatch h
    exact ⟨⟨hresponse.declare s.globals "response" _, hlooks⟩,
      ih.2.trans_le (Store.grows_declare (s.store.newResponse s.globals).2 s.globals _ _).scopes⟩
  · obtain rfl : _ = s.globals := hscope
    have hkept := kept hs block steps ih.1 ih.2
    have hmachine := (Trace.run_eq s.globals block s.env ⟨s.store, steps, s.output⟩).2
    rw [show (s.perform steps (runBlock s.globals block)).2.2.store
      = (Trace.run s.globals block s.env ⟨s.store, steps, s.output⟩).2.machine.store by
        rw [hmachine]; rfl]
    exact ⟨hkept.ok, ih.2.trans_le hkept.le.scopes⟩

end LeavesFunctions

/-- in a store that is in order no expression yields a function -/
theorem LeavesFunctions.eval_ne_function {s : Session} (hs : s.LeavesFunctions) (n : Nat)
    (held : List Ref) {m : Machine} (hok : m.store.InOrder ∧ m.store.LooksNowhere) {c : ScopeId}
    (hc : c.index < m.store.scopes.size) (e : Expr) (f : FunctionId) :
    ((Eval.eval (invoke n) c e).outcome { s.env with held } m).1 ≠ .ok (.function f) := by
  let D := functionsStay s.env hs.env default s.globals
  have hkept : D.Kept held m.store [] D.value
      ((Eval.eval (Trace.invoke n) c e).outcome { s.env with held } ⟨m, []⟩) :=
    Discipline.eval (Discipline.invokes n) (D := D) hc e ⟨m, []⟩ rfl hok
  intro hresult
  rw [← Trace.eval_eq n c e { s.env with held } ⟨m, []⟩] at hresult
  exact hkept.result _ hresult f rfl

/-- functions stay where they are.

A traced run is the run of the session.  Each of its steps declares a block, creates an instance,
enters a function whose arguments hold no functions, or leaves functions, scopes and the slots of
all names as they are but for new slots without functions; unless it is a callback of the host that
answers.  Whatever gets bound to a name in such a step, be it a parameter, is a new slot or one that
holds no function.  And in any step a function that was not in a slot before is declared anew, and
so is the slot.  The host puts its values into new slots as well.  And whatever store a run gets to,
in every scope of it no expression yields a function, so a call of anything but a path fails: with
the error of the callee, or because its value cannot be called. -/
theorem functions_stay {s : Session} (hs : s.LeavesFunctions) (block : Block) (steps : Nat) :
    let traced := Trace.run s.globals block s.env ⟨s.store, steps, s.output⟩
    let ended := s.perform steps (runBlock s.globals block)
    (traced.1 = ended.1 ∧
      traced.2.machine = ⟨ended.2.2.store, ended.2.1, ended.2.2.output⟩) ∧
    (∀ before after, .step before after ∈ traced.2.log →
      (before.Change block s.globals Store.Plain Store.Still after ∧ before.BindsPlain after ∨
        s.env.Answers before after) ∧
      ∀ id f, after.slot id = .function f →
        before.slot id = .function f ∨ before.Declared after id f) ∧
    (∀ name v, s.store.BindsPlain (s.register name v).store) ∧
    (∀ name v o id f,
      ((s.register name v).store.slot id = .function f → s.store.slot id = .function f ∨
        s.store.slots.size ≤ id.index ∧ v = .function f) ∧
      ((s.store.define o name v).2.slot id = .function f → s.store.slot id = .function f ∨
        s.store.slots.size ≤ id.index ∧ v = .function f)) ∧
    ∀ m : Machine, m.store = s.store ∨ (∃ event ∈ traced.2.log, m.store ∈ event.stores) →
      ∀ (n : Nat) (held : List Ref) (c : ScopeId), c.index < m.store.scopes.size → ∀ e : Expr,
        (∀ f, ((Eval.eval (invoke n) c e).outcome { s.env with held } m).1 ≠ .ok (.function f)) ∧
        ∀ l args, (∀ l' ns, e ≠ .path l' ns) →
          (Eval.eval (invoke n) c (.call l e args)).outcome { s.env with held } m
            = match (Eval.eval (invoke n) c e).outcome { s.env with held } m with
              | (.ok _, m') => (.error ⟨e.location, .notCallable e.source⟩, m')
              | (.error err, m') => (.error err, m') := by
  intro traced ended
  obtain ⟨hok, hglobals⟩ := hs.inOrder
  have hkept := hs.kept block steps hok hglobals
  obtain ⟨log, hlog, hpath⟩ := hkept.path
  obtain rfl : traced.2.log = log := hlog
  refine ⟨Trace.run_eq s.globals block s.env ⟨s.store, steps, s.output⟩, ?_,
    fun name v => (Store.Adds.declare s.store s.globals name v).bindsPlain, ?_, ?_⟩
  · intro before after hevent
    obtain ⟨hordered, hlooks⟩ := hpath.ok hok hevent (x := before) List.mem_cons_self
    have hstep := hpath.step_of_mem hevent
    refine ⟨hstep.of_or.imp_left fun h => ⟨h, h.bindsPlain Store.Still.bindsPlain⟩, fun id f =>
      hstep.gained fun hquiet => ?_⟩
    rcases hquiet with hstill | ⟨f, hf, held, home, args, hargs, rfl⟩
    · exact hstill.gainsNone
    · exact (hs.env f hf held home hordered hlooks hargs).2.1
  · have hnew : ∀ v id f, (s.store.newSlot v).2.slot id = .function f →
        s.store.slot id = .function f ∨ s.store.slots.size ≤ id.index ∧ v = .function f := by
      intro v id f hf
      rw [Store.slot_newSlot] at hf
      split at hf
      · rename_i hid
        exact .inr ⟨hid.ge, hf⟩
      · exact .inl hf
    exact fun name v o id f => ⟨hnew v id f, hnew v id f⟩
  · intro m hm n held c hc e
    have hmok : m.store.InOrder ∧ m.store.LooksNowhere := by
      rcases hm with hm | ⟨event, hevent, hmem⟩
      · exact hm ▸ hok
      · exact hpath.ok hok hevent hmem
    have hvalue := hs.eval_ne_function n held hmok hc e
    exact ⟨hvalue, fun l args hcallee => outcome_call_value hcallee hvalue l args⟩

/-- a callback that yields the value of its first argument -/
def firstArgument : Callback := fun _ _ args s =>
  (⟨.ok (match args with | arg :: _ => s.slot arg | [] => .empty), []⟩, s)

theorem leavesFunctions_firstArgument : firstArgument.LeavesFunctions := by
  intro s held home args hs hlooks hargs
  refine ⟨fun g h => ?_, .refl s, .refl s, hs, hlooks⟩
  cases args with
  | nil => cases h
  | cons arg args => exact (hargs arg (by simp)).2 g (Except.ok.inj h)

/-- `function f(a) : f = first(a) : end function` and `x = f(1)(2)` -/
def calledTwice : Block :=
  ⟨⟨"page", 1, 1⟩,
    [.function ⟨⟨"page", 1, 1⟩, .function, "f", [⟨⟨"page", 1, 12⟩, "a", none⟩], ⟨⟨"page", 2, 3⟩,
      [.assign ⟨"page", 2, 5⟩ (.path ⟨"page", 2, 3⟩ ["f"])
        (.call ⟨"page", 2, 7⟩ (.path ⟨"page", 2, 7⟩ ["first"]) [.path ⟨"page", 2, 13⟩ ["a"]])]⟩⟩,
    .assign ⟨"page", 4, 3⟩ (.path ⟨"page", 4, 1⟩ ["x"])
      (.call ⟨"page", 4, 5⟩ (.call ⟨"page", 4, 5⟩ (.path ⟨"page", 4, 5⟩ ["f"])
        [.literal ⟨"page", 4, 7⟩ (.integer 1)]) [.literal ⟨"page", 4, 10⟩ (.integer 2)])]⟩

/-- the result of `f(1)` is an integer, which is not called; and every step on the way is one that
leaves functions where they are -/
theorem functions_stay_calledTwice :
    let s := ((start .default true).registerResponse).registerCallback "first" firstArgument
    (s.perform 0 (runBlock s.globals calledTwice)).1
      = .error ⟨⟨"page", 4, 5⟩, .notCallable "f(1)"⟩ ∧
    ∀ before after, .step before after ∈
        (Trace.run s.globals calledTwice s.env ⟨s.store, 0, s.output⟩).2.log →
      before.Change calledTwice s.globals Store.Plain Store.Still after ∧ before.BindsPlain after ∨
        s.env.Answers before after := by
  intro s
  have hpage : (start .default true).registerResponse.LeavesFunctions :=
    (Under.start _ _).registerResponse trivial
  have hs : s.LeavesFunctions := hpage.registerCallback leavesFunctions_firstArgument
    (fun _ _ => ⟨rfl, nofun⟩) fun _ _ => trivial
  have hstay := functions_stay hs calledTwice 0
  exact ⟨by decide +kernel, fun before after hevent => (hstay.2.1 before after hevent).1⟩

end Session

end PageScript
