import PageScript.Proofs.Eval.Discipline
import PageScript.Proofs.Store.Code

/-!
# Runs of well-aimed code

Two evaluations that call script functions in two ways do the same, as long as the two ways agree on
the functions that come from certain programs: no other function is ever called, where the code in
the store comes from these programs and what is evaluated is well aimed.  Nor does such an
evaluation fail for a target that cannot be assigned to.

* `Eval.AgreeOn`      two evaluations that do the same and keep the code in the store;
* `Eval.agree_eval`, `Eval.agree_execute`   with one lemma for every function of the evaluator;
* `Eval.invokeOnly`   runs the functions that come from certain programs and refuses all others;
* `Eval.invokesAgree_invokeOnly`   it refuses none of those that a run of such programs calls.
-/

set_option linter.unusedSectionVars false

namespace PageScript

open Eval Runner

/-! ## callbacks -/

/-- a callback that brings no code of its own into the store -/
def Callback.KeepsCode (P : Block → Prop) (f : Callback) : Prop :=
  ∀ (held : List Ref) (home : ScopeId) (args : List SlotId) ⦃s : Store⦄, s.Code P →
    (f held home args s).2.Code P

def Env.KeepsCode (P : Block → Prop) (env : Env) : Prop := ∀ f ∈ env.callbacks, f.KeepsCode P

theorem Env.KeepsCode.callback {P : Block → Prop} {env : Env} (h : env.KeepsCode P) (index : Nat) :
    (env.callback index).KeepsCode P := by
  unfold Env.callback
  cases hf : env.callbacks[index]? with
  | none => exact fun _ _ _ _ hs => hs
  | some f => exact h f (Array.mem_of_getElem? hf)

/-! ## what actions on variables keep -/

theorem Store.tolerates_code (P : Block → Prop) :
    Store.Tolerates (fun s s' => s.Code P → s'.Code P) fun _ => False where
  refl _ h := h
  trans h h₁ hs := h₁ (h hs)
  newSlot _ v h := h.newSlot v
  setSlot _ id v h := h.setSlot id v
  bind _ c n id h := h.bind c n id
  setExplicit _ c b h := h.setExplicit c b
  addField _ o n id h := h.addField o n id
  newInstance _ _ _ hhome := hhome.elim
  hoist _ _ _ hc := hc.elim

namespace Action

theorem fault_lookup {use : Use} {c : ScopeId} {n : String} {held : List Ref} {s : Store}
    {f : RuntimeFault} (h : ((lookup use c n).outcome held s).1 = .error f) :
    f ≠ .invalidAssignmentTarget := by
  rw [outcome_lookup] at h
  rcases hfind : s.find held use n c with f' | _ | slot | o <;> rw [hfind] at h
  · obtain rfl : f' = f := Except.error.inj h
    exact (s.searchFrom_eq_error hfind).1 ▸ fun h => nomatch h
  · cases h
  · cases h
  · cases h

theorem fault_resolve {c : ScopeId} {n : String} {held : List Ref} {s : Store} {f : RuntimeFault}
    (h : ((resolve c n).outcome held s).1 = .error f) : f ≠ .invalidAssignmentTarget := by
  rw [outcome_resolve] at h
  rcases hfind : s.find held .variable n c with f' | _ | slot | o <;> rw [hfind] at h
  · obtain rfl : f' = f := Except.error.inj h
    exact (s.searchFrom_eq_error hfind).1 ▸ fun h => nomatch h
  · by_cases hexplicit : (s.scope c).isExplicit = true
    · simp only [hexplicit, if_true] at h
      obtain rfl : RuntimeFault.undeclared n = f := Except.error.inj h
      exact fun h => nomatch h
    · simp only [hexplicit] at h
      cases h
  · cases h
  · cases h

theorem fault_assign {c : ScopeId} {n : String} {v : Value} {held : List Ref} {s : Store}
    {f : RuntimeFault} (h : ((assign c n v).outcome held s).1 = .error f) :
    f ≠ .invalidAssignmentTarget := by
  rw [outcome_assign] at h
  rcases hresolve : (resolve c n).outcome held s with ⟨f' | slot, s₁⟩ <;> rw [hresolve] at h
  · obtain rfl : f' = f := Except.error.inj h
    exact fault_resolve (congrArg Prod.fst hresolve)
  · cases h

end Action

namespace Eval

variable {α β : Type} {P : Block → Prop} {Q : α → Prop} {U : β → Prop}

/-! ## evaluations that agree -/

/-- what an evaluation of well-aimed code leaves: the code in the store comes from programs as `P`
says, a result is as `Q` says, and a fault is not that of a target -/
structure Aimed (P : Block → Prop) (Q : α → Prop) (o : Except RuntimeError α × Machine) : Prop where
  code : o.2.store.Code P
  result : ∀ a, o.1 = .ok a → Q a
  fault : ∀ e, o.1 = .error e → e.fault ≠ .invalidAssignmentTarget

/-- two evaluations that do the same and stay well aimed, where the code in the store comes from
programs as `P` says -/
def AgreeOn (P : Block → Prop) (Q : α → Prop) (x y : Eval α) : Prop :=
  ∀ (env : Env) (m : Machine), env.KeepsCode P → m.store.Code P →
    x.outcome env m = y.outcome env m ∧ Aimed P Q (y.outcome env m)

/-- whatever they yield -/
abbrev Agree (P : Block → Prop) (x y : Eval α) : Prop := AgreeOn P (fun _ => True) x y

theorem agree_pure {a : α} (ha : Q a) : AgreeOn P Q (pure a) (pure a) := by
  intro env m _ hm
  refine ⟨rfl, hm, fun b hb => ?_, fun e he => nomatch he⟩
  obtain rfl : a = b := Except.ok.inj hb
  exact ha

theorem AgreeOn.bind {x y : Eval α} {f g : α → Eval β} (hx : AgreeOn P Q x y)
    (hf : ∀ a, Q a → AgreeOn P U (f a) (g a)) : AgreeOn P U (x >>= f) (y >>= g) := by
  intro env m henv hm
  obtain ⟨heq, haimed⟩ := hx env m henv hm
  rw [outcome_bind, outcome_bind, heq]
  generalize y.outcome env m = o at haimed ⊢
  rcases o with ⟨e | a, m₁⟩
  · refine ⟨rfl, haimed.code, fun b hb => (nomatch hb), fun e' he' => ?_⟩
    exact haimed.fault e' (congrArg Except.error (Except.error.inj he'))
  · exact hf a (haimed.result a rfl) env m₁ henv haimed.code

theorem AgreeOn.holding {x y : Eval α} (refs : List Ref) (hx : AgreeOn P Q x y) :
    AgreeOn P Q (holding refs x) (holding refs y) :=
  fun env m henv hm => hx { env with held := refs ++ env.held } m henv hm

/-- a part that is the same on both sides and whose outcome is known -/
theorem agree_of_aimed {x : Eval α} (h : ∀ (env : Env) (m : Machine), env.KeepsCode P →
    m.store.Code P → Aimed P Q (x.outcome env m)) : AgreeOn P Q x x :=
  fun env m henv hm => ⟨rfl, h env m henv hm⟩

theorem agree_fail (l : Location) {f : RuntimeFault} (hf : f ≠ .invalidAssignmentTarget) :
    AgreeOn P Q (fail l f : Eval α) (fail l f) := by
  refine agree_of_aimed fun env m _ hm => ⟨hm, by rintro b ⟨⟩, fun e he => ?_⟩
  obtain rfl : (⟨l, f⟩ : RuntimeError) = e := Except.error.inj he
  exact hf

theorem agree_check (l : Location) {r : Except RuntimeFault α}
    (hr : ∀ f, r = .error f → f.isOperator = true) : Agree P (check l r) (check l r) := by
  cases r with
  | ok a => exact agree_pure trivial
  | error f =>
    refine agree_fail l ?_
    rintro rfl
    exact nomatch hr _ rfl

theorem agree_store : Agree P store store :=
  agree_of_aimed fun _ _ _ hm => ⟨hm, fun _ _ => trivial, fun _ he => nomatch he⟩

theorem agree_reading (f : Store → α) (hf : ∀ s : Store, s.Code P → Q (f s)) :
    AgreeOn P Q (do return f (← store)) (do return f (← store)) := by
  refine agree_of_aimed fun env m _ hm => ⟨hm, fun a ha => ?_, fun e he => nomatch he⟩
  obtain rfl : f m.store = a := Except.ok.inj ha
  exact hf m.store hm

theorem agree_change {f : Store → α × Store} (hf : ∀ s : Store, s.Code P → (f s).2.Code P) :
    Agree P (change f) (change f) :=
  agree_of_aimed fun _ m _ hm => ⟨hf m.store hm, fun _ _ => trivial, fun _ he => nomatch he⟩

theorem agree_modifyStore {f : Store → Store} (hf : ∀ s : Store, s.Code P → (f s).Code P) :
    Agree P (modifyStore f) (modifyStore f) := by
  show Agree P (change fun s => ((), f s)) (change fun s => ((), f s))
  exact agree_change hf

theorem agree_newSlot (v : Value) : Agree P (newSlot v) (newSlot v) :=
  agree_change fun _ h => h.newSlot v

theorem agree_setSlot (id : SlotId) (v : Value) : Agree P (setSlot id v) (setSlot id v) :=
  agree_modifyStore fun _ h => h.setSlot id v

theorem agree_getSlot (id : SlotId) : Agree P (getSlot id) (getSlot id) :=
  agree_reading _ fun _ _ => trivial

theorem agree_member? (o : ObjectId) (n : String) : Agree P (member? o n) (member? o n) :=
  agree_reading _ fun _ _ => trivial

theorem agree_isAlive (r : Ref) : Agree P (isAlive r) (isAlive r) := by
  refine agree_of_aimed fun env m _ hm => ?_
  rw [outcome_isAlive]
  exact ⟨hm, fun _ _ => trivial, fun e he => nomatch he⟩

theorem agree_write (v : Value) : Agree P (write v) (write v) :=
  agree_of_aimed fun _ _ _ hm => ⟨hm, fun _ _ => trivial, fun _ he => nomatch he⟩

theorem agree_forM {γ : Type} {f : γ → Eval Unit} (hf : ∀ a, Agree P (f a) (f a)) (as : List γ) :
    Agree P (as.forM f) (as.forM f) := by
  induction as with
  | nil => exact agree_pure trivial
  | cons a as ih => exact AgreeOn.bind (hf a) fun _ _ => ih

theorem agree_act (l : Location) {x : Action α}
    (h : ∀ (held : List Ref) (s : Store), s.Code P →
      (x.outcome held s).2.Code P ∧ (∀ a, (x.outcome held s).1 = .ok a → Q a) ∧
        ∀ f, (x.outcome held s).1 = .error f → f ≠ .invalidAssignmentTarget) :
    AgreeOn P Q (act l x) (act l x) := by
  refine agree_of_aimed fun env m _ hm => ?_
  obtain ⟨hcode, hresult, hfault⟩ := h (env.heldIn m) m.store hm
  rw [outcome_act]
  refine ⟨hcode, fun a ha => hresult a (mapError_eq_ok ha), fun e he => ?_⟩
  rcases hx : (x.outcome (env.heldIn m) m.store).1 with f | a <;> rw [hx] at he
  · obtain rfl : (⟨l, f⟩ : RuntimeError) = e := Except.error.inj he
    exact hfault f hx
  · cases he

theorem agree_lookup (l : Location) (use : Use) (c : ScopeId) (n : String) :
    Agree P (act l (Action.lookup use c n)) (act l (Action.lookup use c n)) :=
  agree_act l fun held s hs => ⟨(Store.tolerates_code P).lookup use c n held s hs,
    fun _ _ => trivial, fun _ => Action.fault_lookup⟩

theorem agree_resolve (l : Location) (c : ScopeId) (n : String) :
    Agree P (act l (Action.resolve c n)) (act l (Action.resolve c n)) :=
  agree_act l fun held s hs => ⟨(Store.tolerates_code P).resolve c n held s hs,
    fun _ _ => trivial, fun _ => Action.fault_resolve⟩

theorem agree_assignName (l : Location) (c : ScopeId) (n : String) (v : Value) :
    Agree P (act l (Action.assign c n v)) (act l (Action.assign c n v)) :=
  agree_act l fun held s hs => ⟨(Store.tolerates_code P).assign c n v held s hs,
    fun _ _ => trivial, fun _ => Action.fault_assign⟩

theorem agree_findClass (l : Location) (c : ScopeId) (n : String) :
    AgreeOn P (fun found => ∀ k home, found = some (k, home) → k.From P)
      (act l (Action.ask fun s held => s.findClass held n c))
      (act l (Action.ask fun s held => s.findClass held n c)) := by
  refine agree_act l fun held s hs => ?_
  rw [Action.outcome_ask]
  refine ⟨hs, fun found hfound k home hsome => ?_, fun f hf => ?_⟩
  · subst hsome
    obtain ⟨p, -, hhere⟩ := s.exists_of_searchFrom
      (show s.findClass held n c = .ok (some (k, home)) from hfound)
    obtain ⟨k', hk', heq⟩ := Option.map_eq_some_iff.mp hhere
    obtain ⟨rfl, rfl⟩ := Prod.mk.inj heq
    exact hs.classes p n k' hk'
  · exact (s.searchFrom_eq_error (show s.findClass held n c = .error f from hf)).1 ▸
      fun h => nomatch h

/-! ## routines of the host -/

theorem agree_attempt (l : Location) {x : Action α}
    (hx : ∀ (held : List Ref) (s : Store), s.Code P → (x.outcome held s).2.Code P) :
    Agree P (Routine.attempt l x) (Routine.attempt l x) := by
  refine agree_of_aimed fun env m _ hm => ?_
  have hcode := hx (env.heldIn m) m.store hm
  rw [Routine.attempt, outcome_tryCatch, outcome_act]
  generalize x.outcome (env.heldIn m) m.store = o at hcode ⊢
  rcases o with ⟨f | a, s₁⟩
  · refine ⟨hcode, fun b hb => (nomatch hb), fun e he => ?_⟩
    obtain rfl := Except.error.inj he
    exact fun h => nomatch h
  · exact ⟨hcode, fun _ _ => trivial, fun e he => nomatch he⟩

theorem agree_refuse (l : Location) (message : String) :
    Agree P (fail l (.host message) : Eval α) (fail l (.host message)) :=
  agree_fail l fun h => nomatch h

theorem agree_followPath (l : Location) (slot : SlotId) (ns : List String) :
    Agree P (Routine.followPath l slot ns) (Routine.followPath l slot ns) := by
  induction ns generalizing slot with
  | nil => exact agree_pure trivial
  | cons n ns ih =>
    refine AgreeOn.bind (agree_getSlot slot) fun v _ => ?_
    cases v with
    | object o =>
      refine AgreeOn.bind agree_store fun s _ => ?_
      cases s.field? o n with
      | some slot => exact ih slot
      | none => exact agree_refuse l _
    | _ => exact agree_refuse l _

theorem agree_lookAt (l : Location) (home : ScopeId) (text : String) :
    Agree P (Routine.lookAt l home text) (Routine.lookAt l home text) := by
  unfold Routine.lookAt
  split
  · exact agree_refuse l _
  · rename_i name names _
    refine AgreeOn.bind
      (agree_attempt l ((Store.tolerates_code P).lookup .variable home name)) fun found _ => ?_
    cases found with
    | none => exact agree_refuse l _
    | some slot =>
      exact AgreeOn.bind (agree_followPath l slot names) fun slot _ => agree_getSlot slot

theorem agree_incrementSlot (id : SlotId) :
    Agree P (Routine.incrementSlot id) (Routine.incrementSlot id) := by
  refine AgreeOn.bind (agree_getSlot id) fun v _ => ?_
  cases v with
  | integer n => exact agree_setSlot id _
  | _ => exact agree_pure trivial

theorem agree_answer (index : Nat) (home : ScopeId) (args : List SlotId) :
    Agree P (answer index home args) (answer index home args) := by
  refine agree_of_aimed fun env m henv hm => ?_
  rw [outcome_answer]
  exact ⟨henv.callback index _ home args hm, fun _ _ => trivial, fun e he => nomatch he⟩

/-- what a routine of the host does: it brings no code, and fails with a message -/
theorem agree_routine (r : Routine) (l : Location) (home : ScopeId) (args : List SlotId) :
    Agree P (r.call l home args) (r.call l home args) := by
  refine AgreeOn.bind agree_store fun s _ => ?_
  split
  · exact AgreeOn.bind (agree_write _) fun _ _ => agree_pure trivial
  · exact agree_refuse l _
  · exact agree_pure trivial
  · cases s.slot _ with
    | integer n => exact agree_pure trivial
    | _ => exact agree_refuse l _
  · exact agree_refuse l _
  · exact agree_pure trivial
  · exact agree_pure trivial
  · exact agree_refuse l _
  · exact AgreeOn.bind (agree_forM agree_incrementSlot args) fun _ _ => agree_pure trivial
  · refine AgreeOn.bind (agree_setSlot _ _) fun _ _ => ?_
    exact AgreeOn.bind (agree_setSlot _ _) fun _ _ => agree_pure trivial
  · exact agree_refuse l _
  · exact agree_pure trivial
  · exact agree_refuse l _
  · exact agree_refuse l _
  · exact agree_lookAt l home _
  · exact agree_refuse l _
  · refine AgreeOn.bind (agree_attempt l ((Store.tolerates_code P).assign home _ _)) fun _ _ => ?_
    exact agree_pure trivial
  · exact agree_refuse l _
  · split
    · refine AgreeOn.bind (agree_modifyStore fun _ h => h.setExplicit home _) fun _ _ => ?_
      exact agree_pure trivial
    · exact AgreeOn.bind (agree_pure (Q := fun _ => True) trivial) fun _ _ => agree_pure trivial
  · refine AgreeOn.bind (agree_answer _ home args) fun a _ => ?_
    refine AgreeOn.bind (agree_forM agree_write a.written) fun _ _ => ?_
    cases a.result with
    | ok v => exact agree_pure trivial
    | error message => exact agree_refuse l _

/-! ## calls and paths -/

/-- two ways to run script functions that agree on those from programs as `P` says -/
def InvokesAgree (P : Block → Prop) (i i' : Invoke Eval) : Prop :=
  ∀ ⦃d : FunctionDecl⦄, d.From P → ∀ home args l, Agree P (i d home args l) (i' d home args l)

section

variable {i i' : Invoke Eval} (hi : InvokesAgree P i i') (c : ScopeId) (l : Location)
include hi

theorem agree_callIn {f : Function} (hf : ∀ d home, f = .script d home → d.From P)
    (args : List SlotId) : Agree P (callIn i f args l) (callIn i' f args l) := by
  cases f with
  | script d home =>
    simp only [callIn]
    split
    · exact hi (hf d home rfl) home args l
    · exact agree_fail l (by rintro ⟨⟩)
  | host n home r =>
    refine AgreeOn.bind (AgreeOn.holding _ (agree_routine r l home args)) fun v _ => ?_
    exact agree_newSlot v

theorem agree_call (f : FunctionId) (args : List SlotId) :
    Agree P (call i f args l) (call i' f args l) := by
  refine AgreeOn.bind (Q := fun g => ∀ d home, g = .script d home → d.From P) ?_ fun g hg => ?_
  · exact agree_reading (·.function f) fun s hs d home => hs.function f d home
  · refine AgreeOn.bind (AgreeOn.holding _ (agree_isAlive _)) fun alive _ => ?_
    cases alive with
    | true => exact agree_callIn hi l hg args
    | false => exact agree_fail l fun h => nomatch h

theorem agree_implicitCall (slot : SlotId) :
    Agree P (implicitCall i l slot) (implicitCall i' l slot) := by
  refine AgreeOn.bind (agree_getSlot slot) fun v _ => ?_
  cases v with
  | function f => exact AgreeOn.holding _ (agree_call hi l f [])
  | _ => exact agree_pure trivial

theorem agree_objectIn (ns : List String) (slot : SlotId) :
    Agree P (objectIn i l ns slot) (objectIn i' l ns slot) := by
  refine AgreeOn.bind (agree_implicitCall hi l slot) fun slot' _ => ?_
  refine AgreeOn.bind (agree_getSlot slot') fun v _ => ?_
  cases v with
  | object o => exact agree_pure trivial
  | _ => exact agree_fail l fun h => nomatch h

theorem agree_selectMembers (passed : List String) (slot : SlotId) (ns : List String) :
    Agree P (selectMembers i l passed slot ns) (selectMembers i' l passed slot ns) := by
  induction ns generalizing passed slot with
  | nil => exact agree_pure trivial
  | cons n ns ih =>
    refine AgreeOn.bind (agree_objectIn hi l passed slot) fun o _ => ?_
    refine AgreeOn.bind (agree_member? o n) fun found _ => ?_
    cases found with
    | some slot' => exact ih _ slot'
    | none => exact agree_fail l fun h => nomatch h

theorem agree_resolvePath {ns : List String} (hns : ns ≠ []) :
    Agree P (resolvePath i c l ns) (resolvePath i' c l ns) := by
  cases ns with
  | nil => exact absurd rfl hns
  | cons n ns =>
    refine AgreeOn.bind (agree_resolve l c n) fun slot _ => ?_
    exact agree_selectMembers hi l [n] slot ns

theorem agree_pathSlot {ns : List String} (hns : ns ≠ []) :
    Agree P (pathSlot i c l ns) (pathSlot i' c l ns) :=
  AgreeOn.bind (agree_resolvePath hi c l hns) fun slot _ => agree_implicitCall hi l slot

/-! ## callees and instances -/

theorem agree_calleeValue {e : Expr} (he : e.wellAimed = true) {x y : Eval Value}
    (hxy : Agree P x y) : Agree P (calleeValue i c x e) (calleeValue i' c y e) := by
  match e with
  | .path l [n] =>
    refine AgreeOn.bind (agree_lookup l .callee c n) fun found _ => ?_
    cases found with
    | some slot => exact agree_getSlot slot
    | none =>
      refine AgreeOn.bind (Q := fun _ => True)
        (agree_reading (fun s => (s.scope c).isExplicit) fun _ _ => trivial) fun b _ => ?_
      cases b with
      | true => exact agree_fail l fun h => nomatch h
      | false => exact agree_pure trivial
  | .path _ [] => cases he
  | .path l (n :: n' :: ns) =>
    exact AgreeOn.bind (agree_resolvePath hi c l (List.cons_ne_nil _ _)) fun slot _ =>
      agree_getSlot slot
  | .literal .. => exact hxy
  | .binary .. => exact hxy
  | .unary .. => exact hxy
  | .call .. => exact hxy
  | .new .. => exact hxy
  | .paren .. => exact hxy

theorem agree_callee {e : Expr} (he : e.wellAimed = true) {x y : Eval Value} (hxy : Agree P x y) :
    Agree P (callee i c e x) (callee i' c e y) := by
  refine AgreeOn.bind (agree_calleeValue hi c he hxy) fun v _ => ?_
  cases v with
  | function f => exact agree_pure trivial
  | _ => exact agree_fail _ fun h => nomatch h

theorem agree_initialise (o : ObjectId) : Agree P (initialise i l o) (initialise i' l o) := by
  refine AgreeOn.bind (agree_member? o "class_initialize") fun found _ => ?_
  cases found with
  | none => exact agree_pure trivial
  | some slot =>
    refine AgreeOn.bind (agree_getSlot slot) fun v _ => ?_
    cases v with
    | function f => exact AgreeOn.bind (agree_call hi l f []) fun _ _ => agree_pure trivial
    | _ => exact agree_pure trivial

theorem agree_instantiate (n : String) : Agree P (instantiate i c l n) (instantiate i' c l n) := by
  refine AgreeOn.bind (agree_findClass l c n) fun found hfound => ?_
  match found with
  | none => exact agree_fail l fun h => nomatch h
  | some (k, home) =>
    have hk := hfound k home rfl
    refine AgreeOn.bind (agree_change fun _ h => h.newInstance hk home) fun p _ => ?_
    exact AgreeOn.bind (AgreeOn.holding _ (agree_initialise hi l p.1)) fun _ _ => agree_pure trivial

/-! ## expressions -/

theorem agree_argument {e : Expr} (he : e.wellAimed = true) {x y : Eval Value}
    (hxy : Agree P x y) : Agree P (argument i c e x) (argument i' c e y) := by
  have hother : Agree P (do newSlot (← x)) (do newSlot (← y)) :=
    AgreeOn.bind hxy fun v _ => agree_newSlot v
  cases e with
  | path l ns =>
    have hns : ns ≠ [] := by rintro rfl; cases he
    exact agree_pathSlot hi c l hns
  | _ => exact hother

mutual
theorem agree_eval : ∀ e : Expr, e.wellAimed = true → Agree P (eval i c e) (eval i' c e)
  | .literal .., _ => agree_pure trivial
  | .path l ns, he => by
    have hns : ns ≠ [] := by rintro rfl; cases he
    exact AgreeOn.bind (agree_pathSlot hi c l hns) fun slot _ => agree_getSlot slot
  | .binary l op a b, he => by
    simp only [Expr.wellAimed, Bool.and_eq_true] at he
    refine AgreeOn.bind (agree_eval a he.1) fun v _ => ?_
    refine AgreeOn.bind (AgreeOn.holding _ (agree_eval b he.2)) fun w _ => ?_
    exact agree_check l fun f => Value.isOperator_of_computed (op.computed_apply v w)
  | .unary l op a, he => by
    refine AgreeOn.bind (agree_eval a he) fun v _ => ?_
    exact agree_check l fun f => Value.isOperator_of_computed (op.computed_apply v)
  | .call l e args, he => by
    simp only [Expr.wellAimed, Bool.and_eq_true] at he
    refine AgreeOn.bind (agree_callee hi c he.1 (agree_eval e he.1)) fun f _ => ?_
    refine AgreeOn.bind (agree_arguments args he.2) fun slots _ => ?_
    exact AgreeOn.bind (agree_call hi l f slots) fun slot _ => agree_getSlot slot
  | .new l n, _ => agree_instantiate hi c l n
  | .paren _ a, he => by
    rw [Eval.eval, Eval.eval]
    exact agree_eval a he

theorem agree_arguments : ∀ es : List Expr, Expr.allWellAimed es = true →
    Agree P (arguments i c es) (arguments i' c es)
  | [], _ => agree_pure trivial
  | e :: es, hes => by
    simp only [Expr.allWellAimed, Bool.and_eq_true] at hes
    refine AgreeOn.bind (agree_argument hi c hes.1 (agree_eval e hes.1)) fun slot _ => ?_
    refine AgreeOn.bind (AgreeOn.holding _ (agree_arguments es hes.2)) fun slots _ => ?_
    exact agree_pure trivial
end

theorem agree_evalSlot {e : Expr} (he : e.wellAimed = true) :
    Agree P (evalSlot i c e) (evalSlot i' c e) := by
  have hother : Agree P (do newSlot (← eval i c e)) (do newSlot (← eval i' c e)) :=
    AgreeOn.bind (agree_eval hi c e he) fun v _ => agree_newSlot v
  cases e with
  | path l ns =>
    have hns : ns ≠ [] := by rintro rfl; cases he
    exact agree_pathSlot hi c l hns
  | call l e args =>
    simp only [Expr.wellAimed, Bool.and_eq_true] at he
    refine AgreeOn.bind (agree_callee hi c he.1 (agree_eval hi c e he.1)) fun f _ => ?_
    exact AgreeOn.bind (agree_arguments hi c args he.2) fun slots _ => agree_call hi l f slots
  | _ => exact hother

/-! ## assignment -/

theorem agree_assignMember (target : Location) (o : ObjectId) (n : String) (v : Value) :
    Agree P (assignMember i target l o n v) (assignMember i' target l o n v) := by
  refine AgreeOn.bind (agree_member? o n) fun found _ => ?_
  cases found with
  | some slot =>
    refine AgreeOn.bind (agree_getSlot slot) fun w _ => ?_
    cases w with
    | function f =>
      refine AgreeOn.bind (agree_newSlot v) fun arg _ => ?_
      exact AgreeOn.bind (AgreeOn.holding _ (agree_call hi l f [arg])) fun _ _ => agree_pure trivial
    | _ => exact agree_setSlot slot v
  | none =>
    refine AgreeOn.bind (Q := fun _ => True)
      (agree_reading (·.isInstance o) fun _ _ => trivial) fun b _ => ?_
    cases b with
    | true => exact agree_fail target fun h => nomatch h
    | false =>
      exact AgreeOn.bind (agree_change fun _ h => h.define o n v) fun _ _ => agree_pure trivial

/-- a target that can be assigned to -/
theorem agree_assign (v : Value) {e : Expr} (htarget : e.isTarget = true)
    (he : e.wellAimed = true) : Agree P (assign i c l v e) (assign i' c l v e) := by
  match e with
  | .path _ [] => cases he
  | .path target [n] => exact AgreeOn.holding _ (agree_assignName target c n v)
  | .path target (n :: n' :: ns) =>
    have howner : (n :: n' :: ns).dropLast ≠ [] := List.cons_ne_nil _ _
    refine AgreeOn.bind (AgreeOn.holding _ (agree_resolvePath hi c target howner)) fun slot _ => ?_
    refine AgreeOn.bind (AgreeOn.holding _ (agree_objectIn hi target _ slot)) fun o _ => ?_
    exact agree_assignMember hi l target o _ v
  | .call _ e args =>
    simp only [Expr.wellAimed, Bool.and_eq_true] at he
    refine AgreeOn.bind
      (AgreeOn.holding _ (agree_callee hi c he.1 (agree_eval hi c e he.1))) fun f _ => ?_
    refine AgreeOn.bind (AgreeOn.holding _ (agree_arguments hi c args he.2)) fun slots _ => ?_
    refine AgreeOn.bind (agree_newSlot v) fun last _ => ?_
    exact AgreeOn.bind (agree_call hi l f (slots ++ [last])) fun _ _ => agree_pure trivial
  | .literal .. => cases htarget
  | .binary .. => cases htarget
  | .unary .. => cases htarget
  | .new .. => cases htarget
  | .paren .. => cases htarget

/-! ## execution -/

omit hi in
theorem agree_start : Agree P (start c l : Eval Unit) (start c l) := by
  refine agree_of_aimed fun env m _ hm => ?_
  show Aimed P _ ((countStep l).outcome env m)
  rw [outcome_countStep]
  refine ⟨hm, fun _ _ => trivial, fun e he => ?_⟩
  simp only [Config.budgetAt] at he
  split at he
  · split at he
    · obtain rfl := Except.error.inj he
      rintro ⟨⟩
    · cases he
  · cases he

mutual
theorem agree_perform : ∀ stmt : Stmt, stmt.wellAimed = true →
    Agree P (perform i c stmt) (perform i' c stmt)
  | .function _, _ => agree_pure trivial
  | .class _, _ => agree_pure trivial
  | .dim _, _ => agree_pure trivial
  | .optionExplicit _, _ => agree_pure trivial
  | .exit .., _ => agree_pure trivial
  | .assign l target value, h => by
    simp only [Stmt.wellAimed, Bool.and_eq_true] at h
    refine AgreeOn.bind (agree_eval hi c value h.2) fun v _ => ?_
    exact AgreeOn.bind (agree_assign hi c l v h.1.1 h.1.2) fun _ _ => agree_pure trivial
  | .cond _ condition thenBlock elseBlock, h => by
    simp only [Stmt.wellAimed, Bool.and_eq_true] at h
    refine AgreeOn.bind (agree_eval hi c condition h.1.1) fun v _ => ?_
    refine AgreeOn.bind (agree_check _ fun f hf => v.isOperator_of_truth hf) fun taken _ => ?_
    cases taken with
    | true => exact agree_execute thenBlock h.1.2
    | false => exact agree_execute elseBlock h.2
  | .expr _ e, h => AgreeOn.bind (agree_evalSlot hi c h) fun _ _ => agree_pure trivial

theorem agree_executeAll : ∀ stmts : List Stmt, Stmt.allWellAimed stmts = true →
    Agree P (executeAll i c stmts) (executeAll i' c stmts)
  | [], _ => agree_pure trivial
  | stmt :: stmts, h => by
    simp only [Stmt.allWellAimed, Bool.and_eq_true] at h
    rw [executeAll, executeAll]
    refine AgreeOn.bind (agree_start c stmt.location) fun _ _ => ?_
    refine AgreeOn.bind (agree_perform stmt h.1) fun flow _ => ?_
    cases flow with
    | normal => exact agree_executeAll stmts h.2
    | exit => exact agree_pure trivial

theorem agree_execute : ∀ b : Block, b.wellAimed = true →
    Agree P (execute i c b) (execute i' c b)
  | ⟨_, stmts⟩, h => agree_executeAll stmts h
end

/-- a program as `P` says, in any scope -/
theorem agree_runWith (hP : ∀ b, P b → b.wellAimed = true) {b : Block} (hb : P b) :
    Agree P (runWith i c b) (runWith i' c b) := by
  refine AgreeOn.bind (agree_modifyStore fun _ h => ?_) fun _ _ => ?_
  · exact h.hoist c (fun _ hd => .program hb hd) fun _ hk => .program hb hk
  · exact AgreeOn.bind (agree_execute hi c b (hP b hb)) fun _ _ => agree_pure trivial

end

/-! ## whole runs -/

open Classical in
/-- runs the script functions that are as `F` says, as `invoke` does, and refuses all others -/
noncomputable def invokeOnly (F : FunctionDecl → Prop) : Nat → Invoke Eval
  | 0 => fun _ _ _ loc => refuseCall loc
  | n + 1 => fun decl home args loc => do
    if F decl then
      let scope ← enter decl home args
      let _ ← holding [.scope home, .scope scope] (execute (invokeOnly F n) scope decl.body)
      resultSlot scope
    else fail loc .invalidAssignmentTarget

/-- functions that come from programs as `P` says are never refused, however many calls are
allowed -/
theorem invokesAgree_invokeOnly (hP : ∀ b, P b → b.wellAimed = true) (n : Nat) :
    InvokesAgree P (invokeOnly (FunctionDecl.From P) n) (invoke n) := by
  induction n with
  | zero =>
    intro d _ home args l
    refine agree_of_aimed fun env m _ hm => ⟨hm, fun _ _ => trivial, fun e he => ?_⟩
    obtain rfl := Except.error.inj he
    exact fun h => nomatch h
  | succ n ih =>
    intro d hd home args l
    simp only [invokeOnly, if_pos hd]
    refine AgreeOn.bind (Q := fun _ => True) ?_ fun scope _ => ?_
    · refine agree_of_aimed fun env m _ hm => ?_
      exact ⟨hm.activate env.config.byRef hd home args, fun _ _ => trivial, fun e he => nomatch he⟩
    · have hbody := FunctionDecl.wellAimed_body (hd.wellAimed hP)
      refine AgreeOn.bind (AgreeOn.holding _ (agree_execute ih scope d.body hbody)) fun _ _ => ?_
      exact agree_reading _ fun _ _ => trivial

end Eval

end PageScript
