import PageScript.Proofs.Eval.Watched
import PageScript.Proofs.Host
import PageScript.Proofs.Store.Nested

/-!
# Every run ends

A watched run follows calls within calls only as far as its fuel goes, and reports when it had to
leave a run unfinished.  Inside a call it recurs on the text alone, so calls are the only way to go
on for ever; and a call is refused before more calls are in progress than are allowed.  So a run
with `d` calls in progress is finished as soon as the fuel is more than the number of calls that
are still allowed, whatever the budget of statements is.

Nor does a single step go on for ever: searches go outward from scope to scope, and in every store
that a host and its scripts can build a scope lies inside an older one (`Session.Reachable.nested`).
A callback of the host answers by definition; all that is asked of it is to open scopes inside
scopes that are there.

Main statement: `Session.run_finishes`.
-/

namespace PageScript

open Eval Runner

/-! ## runs keep the nesting of scopes -/

namespace Eval

variable {α β : Type}

/-- an evaluation that keeps the nesting of a store with at least `n` scopes, if callbacks do -/
def Nests (n : Nat) (x : Eval α) : Prop :=
  ∀ env m, env.KeepsNesting → m.store.Nested n → (x.outcome env m).2.store.Nested n

theorem nests_closed (n : Nat) :
    Eval.Closed (fun {_} x => Nests n x) (fun s s' => s.Nested n → s'.Nested n)
      fun c => c.index < n where
  pure _ _ _ _ h := h
  bind {_ _ x f} hx hf env m henv h := by
    have hnested := hx env m henv h
    rw [outcome_bind]
    generalize x.outcome env m = o at hnested ⊢
    rcases o with ⟨_ | a, m₁⟩
    · exact hnested
    · exact hf a env m₁ henv hnested
  tryCatch {_ x f} hx hf env m henv h := by
    have hnested := hx env m henv h
    rw [outcome_tryCatch]
    generalize x.outcome env m = o at hnested ⊢
    rcases o with ⟨e | _, m₁⟩
    · exact hf e env m₁ henv hnested
    · exact hnested
  fail _ _ _ _ _ h := h
  held env m _ h := by
    rw [outcome_held]
    exact h
  store _ _ _ h := h
  write _ _ _ _ h := h
  change hf _ m _ h := hf m.store h
  answer index _ args hhome env m henv h := by
    rw [outcome_answer]
    exact henv.callback index _ args hhome h

/-- evaluations that keep the nesting of scopes; only scopes that are there are fit to run code in,
and the results of evaluations may speak of scopes that they opened -/
def nesting : Simulation Nat Eval Eval where
  like := .equal
  scope n c := c.index < n
  scope_mono := @ScopeId.index_lt_of_le
  routine _ := True
  rel n V x _ := ∀ (env : Env) (m : Machine), env.KeepsNesting → m.store.Nested n →
    (x.outcome env m).2.store.Nested n ∧ ∀ a, (x.outcome env m).1 = .ok a →
      ∃ n' b, n ≤ n' ∧ (x.outcome env m).2.store.Nested n' ∧ V n' a b
  pure {_ n _ a b} hab env m _ h := by
    refine ⟨h, fun c hc => ?_⟩
    obtain rfl : a = c := Except.ok.inj hc
    exact ⟨n, b, le_rfl, h, hab⟩
  bind {_ _ n _ _ x _ f _} hx hf env m henv h := by
    obtain ⟨hnested, hresult⟩ := hx env m henv h
    rw [outcome_bind]
    generalize x.outcome env m = o at hnested hresult ⊢
    rcases o with ⟨e | a, m₁⟩
    · exact ⟨hnested, fun c hc => nomatch hc⟩
    · -- the rest may run in the scopes that the first part has opened
      obtain ⟨n₁, b, hle, hnested₁, hab⟩ := hresult a rfl
      obtain ⟨hnested₂, hresult₂⟩ := hf n₁ a b hle hab env m₁ henv hnested₁
      refine ⟨hnested₂.mono hle, fun c hc => ?_⟩
      obtain ⟨n₂, b₂, hle₂, hfinal, hcb⟩ := hresult₂ c hc
      exact ⟨n₂, b₂, hle.trans hle₂, hfinal, hcb⟩
  holding refs hx env m henv h := hx { env with held := refs ++ env.held } m henv h
  start {n _ l _} _ _ env m _ h := by
    show ((countStep l).outcome env m).2.store.Nested n ∧ _
    rw [show (start _ l : Eval Unit) = countStep l from rfl, outcome_countStep]
    exact ⟨h, fun a _ => ⟨n, a, le_rfl, h, rfl⟩⟩
  fail _ _ _ m _ h := ⟨h, fun _ hc => nomatch hc⟩
  unknown {n c l _ name _} _ _ _ env m _ h := by
    have hnested : ((if (m.store.scope c).isExplicit then Eval.fail l (.undeclared name)
        else pure .empty : Eval Value).outcome env m).2.store.Nested n := by
      split <;> exact h
    exact ⟨hnested, fun a _ => ⟨n, a, le_rfl, hnested, rfl⟩⟩
  same {_ n p p'} hp env m henv h := by
    obtain ⟨rfl, hnests⟩ := hp.closed (nests_closed n) (Store.tolerates_nested n)
    have hnested := hnests env m henv h
    exact ⟨hnested, fun a _ => ⟨n, a, le_rfl, hnested, rfl⟩⟩
  findClass {n c l l' name name'} hc _ hname env m _ h := by
    obtain rfl : name = name' := hname
    show ((act l _).outcome env m).2.store.Nested n ∧ _
    rw [show (step (act l _) : Eval _) = act l _ from rfl, outcome_act, Action.outcome_ask]
    refine ⟨h, fun found hfound => ⟨n, found, le_rfl, h, ?_⟩⟩
    cases found with
    | none => exact .none
    | some p =>
      have hfound : m.store.findClass (env.heldIn m) name c = .ok (some p) := mapError_eq_ok hfound
      exact .some ⟨p.1.alike_self, rfl, (h.findClass_le hfound).trans_lt hc⟩
  function {n} id env m _ h := by
    refine ⟨h, fun f hf => ?_⟩
    obtain rfl : m.store.function id = f := Except.ok.inj hf
    refine ⟨_, _, h.size, h.all, Function.alike_self _, h.home id, ?_⟩
    cases m.store.function id <;> trivial
  enter {n d d' home} args hd hhome env m _ h := by
    have hnested := h.activate env.config.byRef d hhome args
    refine ⟨hnested.mono (h.size.trans (Nat.le_succ _)), fun c hc => ?_⟩
    obtain rfl : ⟨m.store.scopes.size⟩ = c := Except.ok.inj hc
    exact ⟨_, _, h.size.trans (Nat.le_succ _), hnested, rfl, Nat.lt_succ_self _⟩

theorem nesting_invoke (calls : Nat) : nesting.Invokes (invoke calls) (invoke calls) := by
  induction calls with
  | zero =>
    intro n _ _ _ _ _ args _ _ _ env m _ h
    exact ⟨h, fun _ hc => nomatch hc⟩
  | succ calls ih => exact nesting.calls_succ ih

theorem nested_runBlock {n : Nat} {scope : ScopeId} (hscope : scope.index < n) (block : Block)
    {env : Env} (henv : env.KeepsNesting) {m : Machine} (h : m.store.Nested n) :
    ((runBlock scope block).outcome env m).2.store.Nested n := by
  rw [outcome_runBlock]
  exact (nesting.runWith (nesting_invoke _) hscope block.alike_self env m henv h).1

theorem nested_runExpr {n : Nat} {scope : ScopeId} (hscope : scope.index < n) (e : Expr)
    {env : Env} (henv : env.KeepsNesting) {m : Machine} (h : m.store.Nested n) :
    ((runExpr scope e).outcome env m).2.store.Nested n := by
  rw [outcome_runExpr]
  exact (nesting.eval (nesting_invoke _) hscope e.alike_self env m henv h).1

end Eval

/-! ## the sessions of a host -/

namespace Session

/-- the sessions that a host and its scripts can bring about: the host registers values, routines,
callbacks and objects of its own, opens scopes, pins things and changes the configuration, and in
between blocks are run and expressions evaluated, in any scope -/
abbrev Reachable : Session → Prop := Under fun
  | _, .bring f => f.KeepsNesting
  | s, .newRoutine _ home _ => home = s.globals
  | s, .newChild scope | s, .runBlock _ scope _ | s, .runExpr _ scope _ =>
    scope.index < s.store.scopes.size
  | _, _ => True

theorem Reachable.keepsNesting {s : Session} (h : s.Reachable) : s.env.KeepsNesting :=
  h.callbacks fun _ _ hf => hf

/-- the global scope is there, and scopes are nested -/
theorem Reachable.nested {s : Session} (h : s.Reachable) :
    s.store.Nested (s.globals.index + 1) :=
  h.upheld (I := fun globals store => store.Nested (globals.index + 1))
    { start := Store.nested_first
      register := fun {_ name v} _ _ ih => ih.declare _ name v
      registerResponse := fun {s} _ _ ih =>
        ((((ih.newFunction (f := .host "write" s.globals .write) (Nat.lt_succ_self _)).newObject
          _).newSlot _).addField _ _ _).declare _ _ _
      newRoutine := fun _ hhome ih => ih.newFunction (hhome ▸ Nat.lt_succ_self _)
      newObject := fun _ _ ih => ih.newObject _
      define := fun {_ id name v} _ _ ih => (ih.newSlot v).addField id name _
      newGlobal := fun {_ isExplicit} _ _ ih =>
        (ih.newGlobal isExplicit).mono (ih.size.trans (Nat.le_succ _))
      newChild := fun _ hparent ih =>
        (ih.all.newChild hparent none).mono (ih.size.trans (Nat.le_succ _))
      runBlock := fun {_ _ _ block} hs hscope ih =>
        (nested_runBlock hscope block (Reachable.keepsNesting hs) ih.all).mono ih.size
      runExpr := fun {_ _ _ e} hs hscope ih =>
        (nested_runExpr hscope e (Reachable.keepsNesting hs) ih.all).mono ih.size }

/-- every run ends, with or without a budget of statements, whatever callbacks the host has.

A watched run of a block is finished when its fuel is more than the calls that are allowed, and then
has the result of the run, which is a success or an error, and leaves the same machine.  Wherever a
run has got, what is left of the budget of calls is fuel enough.  And in the store of the session a
search goes on in the scope right around, which is older. -/
theorem run_finishes {s : Session} (hs : s.Reachable) (scope : ScopeId) (block : Block)
    (steps : Nat) :
    (∀ fuel, s.config.maxCallDepth < fuel →
      let watched := Watch.run fuel scope block s.env ⟨s.store, steps, s.output⟩
      let ended := s.perform steps (Eval.runBlock scope block)
      watched.1 = ended.1.mapError .error ∧
        watched.2.machine = ⟨ended.2.2.store, ended.2.1, ended.2.2.output⟩) ∧
    (∀ fuel (v : Vantage) (w : Watched), w.depth ≤ v.env.config.maxCallDepth →
      v.env.config.maxCallDepth - w.depth < fuel →
      ((execute (Watch.invoke fuel) scope block).outcome v w).1 ≠ .error .unfinished) ∧
    (∀ held id,
      (∀ p, s.store.parent held id = .ok (some p) → p.index < id.index) ∧
      ∀ {α : Type} (here : ScopeId → Option α),
        s.store.searchFrom held here id
          = match here id with
            | some a => .ok (some a)
            | none =>
              match s.store.parent held id with
              | .ok (some p) => s.store.searchFrom held here p
              | .ok none => .ok none
              | .error e => .error e) := by
  refine ⟨fun fuel hfuel => ?_, fun fuel v w hdepth hfuel => ?_, fun held id => ?_⟩
  · exact Watch.run_eq s.env hfuel scope block ⟨s.store, steps, s.output⟩
  · exact Watch.execute_finished hdepth hfuel scope block
  · exact ⟨fun p => hs.nested.parent_lt, fun here => hs.nested.searchFrom_eq held here id⟩

/-- a callback that opens a scope inside the one that it belongs to -/
def openScope : Callback := fun _ home _ s => (⟨.ok .empty, []⟩, (s.newChild home none).2)

theorem keepsNesting_openScope : openScope.KeepsNesting :=
  fun _ _ _ _ _ hhome hs => (hs.newChild hhome none).mono (hs.size.trans (Nat.le_succ _))

/-- `function f : grow : f : end function` and a call of `f` -/
def endlessCalls : Block :=
  ⟨⟨"page", 1, 1⟩,
    [.function ⟨⟨"page", 1, 1⟩, .function, "f", [], ⟨⟨"page", 2, 3⟩,
      [.expr ⟨"page", 2, 3⟩ (.call ⟨"page", 2, 3⟩ (.path ⟨"page", 2, 3⟩ ["grow"]) []),
      .expr ⟨"page", 3, 3⟩ (.call ⟨"page", 3, 3⟩ (.path ⟨"page", 3, 3⟩ ["f"]) [])]⟩⟩,
    .expr ⟨"page", 5, 1⟩ (.path ⟨"page", 5, 1⟩ ["f"])]⟩

/-- three calls are allowed and no budget of statements is set: the fourth call ends the run, in
which every call has opened two scopes -/
theorem run_finishes_endlessCalls :
    let s := (start ⟨false, true, 3, none⟩ true).registerCallback "grow" openScope
    let ended := s.perform 0 (Eval.runBlock s.globals endlessCalls)
    ended.1 = .error ⟨⟨"page", 3, 3⟩, .callDepthExceeded 3⟩ ∧
      ended.2.2.store.scopes.size = 7 ∧
      (Watch.run 4 s.globals endlessCalls s.env ⟨s.store, 0, s.output⟩).1
        = ended.1.mapError .error := by
  intro s ended
  have hs : s.Reachable := (Under.start _ _).registerCallback keepsNesting_openScope
    (fun _ _ => rfl) fun _ _ => trivial
  have hended := (run_finishes hs s.globals endlessCalls 0).1 4 (Nat.lt_succ_self 3)
  exact ⟨by decide +kernel, by decide +kernel, hended.1⟩

end Session

end PageScript
