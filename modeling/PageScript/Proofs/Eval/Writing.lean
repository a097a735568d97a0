import PageScript.Proofs.LiveScopes
import PageScript.Proofs.Program.Template

/-!
# Writing to the page

What a template does is to call `response.write` with one expression after the other.  Such a call
makes two slots, one for the argument and one for the result, and writes the value; so where
`response.write` is the routine of the host before the call, it still is behind it, and a list of
such statements writes the values in order up to the first one that is missing.

* `Constant.outcome_eval`          the value of an expression of literals, wherever it is evaluated;
* `Store.Serves`                   `response.write` is the routine of the host;
* `Eval.outcome_executeAll_ok`     statements whose expressions have values;
* `Eval.outcome_executeAll_error`  a statement whose expression has none.
-/

namespace PageScript

open Eval

/-! ## expressions of literals -/

namespace Constant

/-- what an operator yields is passed on, with a location for its fault -/
theorem outcome_operator (l : Location) (x : Except RuntimeFault Value) (env : Env) (m : Machine) :
    ∃ r, (check l x).outcome env m = (r, m) ∧ r.mapError RuntimeError.fault = x := by
  refine ⟨_, outcome_check l x env m, ?_⟩
  cases x with
  | error f => rfl
  | ok v => rfl

/-- the evaluator finds the value of an expression of literals, or its fault, and changes nothing -/
theorem outcome_eval (i : Invoke Eval) (scope : ScopeId) (k : Constant) {e : Expr}
    (he : e.bare = k.expr) (env : Env) (m : Machine) :
    ∃ r, (eval i scope e).outcome env m = (r, m) ∧ r.mapError RuntimeError.fault = k.value := by
  induction k generalizing e env with
  | literal value =>
    cases e with
    | literal l v =>
      obtain ⟨-, rfl⟩ := Expr.literal.inj he
      exact ⟨.ok v.value, by rw [Eval.eval]; rfl, rfl⟩
    | _ => cases he
  | binary op left right ihl ihr =>
    cases e with
    | binary l op' a b =>
      obtain ⟨-, rfl, ha, hb⟩ := Expr.binary.inj he
      obtain ⟨x, hx, hleft⟩ := ihl ha env
      rw [Eval.eval, value, ← hleft]
      cases x with
      | error err => exact ⟨_, outcome_bind_of_error hx _, rfl⟩
      | ok x =>
        -- the left value is held meanwhile, which makes no difference
        obtain ⟨y, hy, hright⟩ := ihr hb { env with held := x.refs ++ env.held }
        replace hy : (Runner.holding x.refs (eval i scope b) : Eval Value).outcome env m = (y, m) :=
          hy
        rw [outcome_bind_of_ok hx, ← hright]
        cases y with
        | error err => exact ⟨_, outcome_bind_of_error hy _, rfl⟩
        | ok y =>
          obtain ⟨r, hr, hvalue⟩ := outcome_operator l (op'.apply x y) env m
          exact ⟨r, (outcome_bind_of_ok hy _).trans hr, hvalue⟩
    | _ => cases he
  | unary op operand ih =>
    cases e with
    | unary l op' a =>
      obtain ⟨-, rfl, ha⟩ := Expr.unary.inj he
      obtain ⟨x, hx, hoperand⟩ := ih ha env
      rw [Eval.eval, value, ← hoperand]
      cases x with
      | error err => exact ⟨_, outcome_bind_of_error hx _, rfl⟩
      | ok x =>
        obtain ⟨r, hr, hvalue⟩ := outcome_operator l (op'.apply x) env m
        exact ⟨r, (outcome_bind_of_ok hx _).trans hr, hvalue⟩
    | _ => cases he
  | paren inner ih =>
    cases e with
    | paren l a =>
      obtain ⟨-, ha⟩ := Expr.paren.inj he
      rw [Eval.eval]
      exact ih ha env
    | _ => cases he

theorem argument_eq (i : Invoke Eval) (scope : ScopeId) {k : Constant} {e : Expr}
    (he : e.bare = k.expr) (x : Eval Value) :
    argument i scope e x = x >>= newSlot := by
  cases e with
  | path l ns => cases k <;> cases he
  | _ => rfl

end Constant

/-! ## the page's `response` -/

namespace Store

variable {s : Store} {c : ScopeId}

/-- what a scope has as `response.write` is a function, the routine of the host that writes -/
structure Serves (s : Store) (c : ScopeId) (f : FunctionId) : Prop where
  found : ∃ r o w, (s.scope c).bindings.find? "response" = some r ∧ s.slot r = .object o ∧
    s.field? o "write" = some w ∧ s.slot w = .function f
  writes : s.function f = .host "write" c .write

theorem slot_newSlot_of_ne {id : SlotId} (h : s.slot id ≠ .empty) (v : Value) :
    (s.newSlot v).2.slot id = s.slot id := by
  rw [slot_newSlot, if_neg]
  intro hid
  exact h (by simp [slot, hid])

theorem Serves.newSlot {f : FunctionId} (h : s.Serves c f) (v : Value) :
    (s.newSlot v).2.Serves c f := by
  obtain ⟨⟨r, o, w, hr, ho, hw, hf⟩, hwrites⟩ := h
  refine ⟨⟨r, o, w, hr, ?_, hw, ?_⟩, hwrites⟩
  · rw [slot_newSlot_of_ne (by simp [ho]), ho]
  · rw [slot_newSlot_of_ne (by simp [hf]), hf]

end Store

namespace Eval

variable {i : Invoke Eval} {c : ScopeId} {f : FunctionId} {env : Env} {m : Machine}

/-- the way along the path to the function changes nothing -/
theorem outcome_callee_write (h : m.store.Serves c f) (l : Location) (value : Eval Value) :
    (callee i c (.path l ["response", "write"]) value).outcome env m = (.ok f, m) := by
  obtain ⟨⟨r, o, w, hr, ho, hw, hf⟩, -⟩ := h
  have hslot : ∀ id, (getSlot id).outcome env m = (.ok (m.store.slot id), m) := fun _ => rfl
  have hfind : m.store.find (env.heldIn m) .variable "response" c = .ok (some (.slot r)) := by
    simp [Store.find, Store.searchFrom, Store.findHere, hr]
  have hresponse : (act l (Action.resolve c "response")).outcome env m = (.ok r, m) := by
    rw [outcome_act, Action.outcome_resolve, hfind]
    rfl
  have hcalled : (implicitCall i l r).outcome env m = (.ok r, m) := by
    refine (outcome_bind_of_ok (hslot r) _).trans ?_
    rw [ho]
    rfl
  have hobject : (objectIn i l ["response"] r).outcome env m = (.ok o, m) := by
    refine (outcome_bind_of_ok hcalled _).trans ((outcome_bind_of_ok (hslot r) _).trans ?_)
    rw [ho]
    rfl
  have hmember : (member? o "write").outcome env m = (.ok (some w), m) := by
    show (Except.ok (m.store.field? o "write"), m) = _
    rw [hw]
  have hpath : (resolvePath i c l ["response", "write"]).outcome env m = (.ok w, m) :=
    (outcome_bind_of_ok hresponse _).trans
      ((outcome_bind_of_ok hobject _).trans (outcome_bind_of_ok hmember _))
  have hvalue : (calleeValue i c value (.path l ["response", "write"])).outcome env m
      = (.ok (.function f), m) := by
    refine (outcome_bind_of_ok hpath _).trans ?_
    rw [← hf]
    exact hslot w
  exact outcome_bind_of_ok hvalue _

theorem outcome_call_write (h : m.store.Serves c f) (hc : .scope c ∈ env.held) (slot : SlotId)
    (l : Location) :
    (call i f [slot] l).outcome env m
      = (.ok (m.store.newSlot .empty).1, ⟨(m.store.newSlot .empty).2, m.steps,
          m.output.push (m.store.slot slot)⟩) := by
  have halive : m.store.alive ({ env with held := [slot].map Ref.slot ++ env.held }.heldIn m)
      (.scope (homeOf (m.store.function f))) = true := by
    rw [h.writes]
    exact m.store.alive_of_mem (Env.mem_heldIn _ (List.mem_append_right _ hc) m)
  rw [Session.outcome_call halive i l, h.writes]
  rfl

/-! ## statements that write -/

theorem eq_of_bare_writing {k : Constant} {st : Stmt} (h : st.bare = Template.writing k) :
    ∃ l l₁ l₂ e, st = .expr l (.call l₁ (.path l₂ ["response", "write"]) [e]) ∧
      e.bare = k.expr := by
  cases st with
  | expr l e =>
    obtain ⟨-, h⟩ := Stmt.expr.inj h
    cases e with
    | call l₁ callee args =>
      obtain ⟨-, hcallee, hargs⟩ := Expr.call.inj h
      cases callee with
      | path l₂ names =>
        obtain ⟨-, rfl⟩ := Expr.path.inj hcallee
        rw [Expr.bares_eq_map] at hargs
        obtain ⟨e, rfl, he⟩ := List.map_eq_singleton_iff.mp hargs
        exact ⟨l, l₁, l₂, e, rfl, he⟩
      | _ => cases hcallee
    | _ => cases h
  | _ => cases h

theorem hoistAll_writing {ks : List Constant} {ss : List Stmt}
    (h : Stmt.bares ss = ks.map Template.writing) (c : ScopeId) (s : Store) :
    Stmt.hoistAll c s ss = s := by
  rw [Stmt.bares_eq_map] at h
  induction ss generalizing ks with
  | nil => rfl
  | cons st ss ih =>
    obtain ⟨k, ks, rfl, hst, hss⟩ := List.map_eq_cons_iff.mp h.symm
    obtain ⟨l, l₁, l₂, e, rfl, -⟩ := eq_of_bare_writing hst.symm
    exact ih hss.symm

theorem outcome_perform_ok (h : m.store.Serves c f) (hc : .scope c ∈ env.held) {k : Constant}
    {st : Stmt} (hst : st.bare = Template.writing k) {v : Value} (hv : k.value = .ok v) :
    ∃ s, s.Serves c f ∧
      (perform i c st).outcome env m = (.ok .normal, ⟨s, m.steps, m.output.push v⟩) := by
  obtain ⟨l, l₁, l₂, e, rfl, he⟩ := eq_of_bare_writing hst
  obtain ⟨r, hr, hrv⟩ := k.outcome_eval i c he env m
  obtain rfl := mapError_eq_ok (hrv.trans hv)
  let arg : SlotId := (m.store.newSlot v).1
  let m₁ : Machine := { m with store := (m.store.newSlot v).2 }
  have harg : (argument i c e (eval i c e)).outcome env m = (.ok arg, m₁) := by
    rw [Constant.argument_eq i c he]
    exact outcome_bind_of_ok hr _
  have hargs : (arguments i c [e]).outcome env m = (.ok [arg], m₁) := by
    rw [arguments, outcome_bind_of_ok harg, arguments]
    rfl
  have hslot : m₁.store.slot arg = v := (m.store.slot_newSlot v arg).trans (if_pos rfl)
  have hserves : m₁.store.Serves c f := h.newSlot v
  refine ⟨(m₁.store.newSlot .empty).2, hserves.newSlot .empty, ?_⟩
  have hcall := outcome_call_write (i := i) hserves hc arg l₁
  rw [hslot] at hcall
  have heval : (evalSlot i c (.call l₁ (.path l₂ ["response", "write"]) [e])).outcome env m
      = (.ok (m₁.store.newSlot .empty).1, ⟨(m₁.store.newSlot .empty).2, m.steps,
          m.output.push v⟩) := by
    rw [evalSlot, outcome_bind_of_ok (outcome_callee_write h l₂ _), outcome_bind_of_ok hargs]
    exact hcall
  rw [perform]
  exact outcome_bind_of_ok heval _

theorem outcome_perform_error (h : m.store.Serves c f) {k : Constant} {st : Stmt}
    (hst : st.bare = Template.writing k) {fault : RuntimeFault} (hfault : k.value = .error fault) :
    ∃ l, (perform i c st).outcome env m = (.error ⟨l, fault⟩, m) := by
  obtain ⟨l, l₁, l₂, e, rfl, he⟩ := eq_of_bare_writing hst
  obtain ⟨r, hr, hrv⟩ := k.outcome_eval i c he env m
  rw [hfault] at hrv
  cases r with
  | ok v => cases hrv
  | error err =>
    obtain ⟨l', fault'⟩ := err
    obtain rfl : fault' = fault := Except.error.inj hrv
    have harg : (argument i c e (eval i c e)).outcome env m = (.error ⟨l', fault'⟩, m) := by
      rw [Constant.argument_eq i c he]
      exact outcome_bind_of_error hr _
    have hargs : (arguments i c [e]).outcome env m = (.error ⟨l', fault'⟩, m) := by
      rw [arguments]
      exact outcome_bind_of_error harg _
    refine ⟨l', ?_⟩
    rw [perform, evalSlot]
    refine outcome_bind_of_error ?_ _
    rw [outcome_bind_of_ok (outcome_callee_write h l₂ _)]
    exact outcome_bind_of_error hargs _

/-! ## lists of statements -/

variable (hsteps : env.config.maxSteps = none)
include hsteps

theorem outcome_executeAll_cons (st : Stmt) (ss : List Stmt) :
    (executeAll i c (st :: ss)).outcome env m
      = match (perform i c st).outcome env { m with steps := m.steps + 1 } with
        | (.ok .normal, m₁) => (executeAll i c ss).outcome env m₁
        | (.ok .exit, m₁) => (.ok .exit, m₁)
        | (.error e, m₁) => (.error e, m₁) := by
  have hstart : (Runner.start c st.location : Eval Unit).outcome env m
      = (.ok (), { m with steps := m.steps + 1 }) := by
    show (countStep st.location).outcome env m = _
    rw [outcome_countStep, Config.budgetAt, hsteps]
  rw [executeAll, outcome_bind, hstart]
  show (perform i c st >>= _ : Eval Flow).outcome env _ = _
  rw [outcome_bind]
  rcases (perform i c st).outcome env { m with steps := m.steps + 1 } with ⟨e | _ | _, m₁⟩ <;> rfl

/-- statements whose expressions have values write them in order -/
theorem outcome_executeAll_ok (hc : .scope c ∈ env.held) {ks : List Constant} {vs : List Value}
    (hvs : List.Forall₂ (fun k v => k.value = .ok v) ks vs) {ss : List Stmt}
    (hss : Stmt.bares ss = ks.map Template.writing) (rest : List Stmt) (h : m.store.Serves c f) :
    ∃ m', m'.store.Serves c f ∧ m'.output.toList = m.output.toList ++ vs ∧
      (executeAll i c (ss ++ rest)).outcome env m = (executeAll i c rest).outcome env m' := by
  rw [Stmt.bares_eq_map] at hss
  induction hvs generalizing ss m with
  | nil =>
    obtain rfl := List.map_eq_nil_iff.mp hss
    exact ⟨m, h, by simp, rfl⟩
  | @cons k v ks vs hv _ ih =>
    obtain ⟨st, ss, rfl, hst, hss⟩ := List.map_eq_cons_iff.mp hss
    obtain ⟨s, hs, hperform⟩ := outcome_perform_ok (i := i)
      (m := { m with steps := m.steps + 1 }) h hc hst hv
    obtain ⟨m', hm', houtput, hrest⟩ := ih (m := ⟨s, m.steps + 1, m.output.push v⟩) hss hs
    refine ⟨m', hm', ?_, ?_⟩
    · rw [houtput]
      simp
    · rw [List.cons_append, outcome_executeAll_cons hsteps, hperform]
      exact hrest

/-- a statement whose expression has no value ends the run, and writes nothing -/
theorem outcome_executeAll_error {k : Constant} {fault : RuntimeFault}
    (hfault : k.value = .error fault) {st : Stmt} (hst : st.bare = Template.writing k)
    (rest : List Stmt) (h : m.store.Serves c f) :
    ∃ l, (executeAll i c (st :: rest)).outcome env m
      = (.error ⟨l, fault⟩, { m with steps := m.steps + 1 }) := by
  let counted : Machine := { m with steps := m.steps + 1 }
  have hperform : ∃ l, (perform i c st).outcome env counted = (.error ⟨l, fault⟩, counted) :=
    outcome_perform_error (m := counted) h hst hfault
  obtain ⟨l, hperform⟩ := hperform
  refine ⟨l, ?_⟩
  rw [outcome_executeAll_cons hsteps, hperform]

end Eval

end PageScript
