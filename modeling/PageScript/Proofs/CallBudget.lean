import PageScript.Proofs.Eval.Watched

/-!
# The budget of calls

The count of calls in progress goes up in one place, but that place is reached through calls that
are written out, functions that are only mentioned, methods that take an assigned value and the
initialisation of instances.  Whichever way it is reached and however it ends, the count is as
before afterwards (`Watch.Balanced`), and every statement of a function body starts while the count
is the number of calls around it.

A larger budget changes nothing for a run that is not refused a call: both runs take the same
steps, until one of them is refused (`Eval.deepening`).

Main statement: `Eval.callBudget_balanced_and_transparent`.
-/

namespace PageScript

open Eval Runner

def Env.withMaxCallDepth (env : Env) (limit : Nat) : Env :=
  { env with config.maxCallDepth := limit }

/-! ## the count of calls in progress -/

namespace Watch

variable {α : Type}

/-- the count of calls is as before, whatever the outcome -/
def Balanced (x : Watch α) : Prop := ∀ v w, (x.outcome v w).2.depth = w.depth

theorem balanced_of_keeping {V : α → α → Prop} {x : Watch α} (h : keeping.rel V x x) :
    x.Balanced := fun v w => (h v w).1.depth

/-- every statement that starts in the body of a function starts inside the call -/
theorem counted_runBody {next : Invoke Watch} (hnext : keeping.simulation.Invokes next next)
    (decl : FunctionDecl) (home scope : ScopeId) {v : Vantage} {w : Watched}
    (hdepth : w.depth = v.calls.length) (hlimit : w.depth < v.env.config.maxCallDepth) :
    ∃ l, ((runBody next decl home scope).outcome v w).2.log = w.log ++ l ∧
      ∀ moment ∈ l, moment.Counted (decl :: v.calls) v.env.config.maxCallDepth := by
  have hbody : (holding _ (execute next scope decl.body) : Watch Flow).Keeps
      { v with calls := decl :: v.calls } { w with depth := w.depth + 1 } :=
    keeps_execute hnext [.scope home, .scope scope] scope decl.body
  obtain ⟨l, hlog, -, hcounted⟩ := hbody.log
  refine ⟨l, ?_, hcounted (by simp [hdepth]) hlimit⟩
  rw [runBody, outcome_bind, outcome_inside]
  generalize Watch.outcome (holding _ _) _ _ = o at hlog ⊢
  rcases o with ⟨_ | _, w₁⟩ <;> exact hlog

theorem counted_invoke (fuel : Nat) (decl : FunctionDecl) (home : ScopeId) (args : List SlotId)
    (loc : Location) {v : Vantage} {w : Watched} (hdepth : w.depth = v.calls.length) :
    ∃ l, ((invoke fuel decl home args loc).outcome v w).2.log = w.log ++ l ∧
      ∀ moment ∈ l, moment.Counted (decl :: v.calls) v.env.config.maxCallDepth := by
  -- where the run is not followed, and where the call is refused, nothing starts
  have hnothing : ∃ l, w.log = w.log ++ l ∧
      ∀ moment ∈ l, moment.Counted (decl :: v.calls) v.env.config.maxCallDepth :=
    ⟨[], by simp, fun _ h => nomatch h⟩
  cases fuel with
  | zero => exact hnothing
  | succ fuel =>
    rw [outcome_invoke]
    by_cases hlimit : w.depth < v.env.config.maxCallDepth
    · rw [if_pos hlimit, outcome_bind, outcome_step]
      rcases (enter decl home args).outcome v.env w.machine with ⟨_ | scope, m⟩
      · exact hnothing
      · exact counted_runBody (w := { w with machine := m }) (keeping_invoke fuel) decl home scope
          hdepth hlimit
    · rw [if_neg hlimit]
      exact hnothing

end Watch

/-! ## larger budgets -/

namespace Eval

variable {α β : Type} {V : α → α → Prop} {U : β → β → Prop}

/-- an outcome beside the outcome with a larger budget of calls: a refused call, or the same -/
inductive Deepens (V : α → α → Prop) :
    Except RuntimeError α × Machine → Except RuntimeError α × Machine → Prop
  | ok {a b m} : V a b → Deepens V (.ok a, m) (.ok b, m)
  | error {e m} : Deepens V (.error e, m) (.error e, m)
  | refused {loc limit m o} : Deepens V (.error ⟨loc, .callDepthExceeded limit⟩, m) o

theorem Deepens.of_same {o : Except RuntimeError α × Machine} (hV : ∀ a, o.1 = .ok a → V a a) :
    Deepens V o o := by
  rcases o with ⟨e | a, m⟩
  · exact .error
  · exact .ok (hV a rfl)

/-- evaluations beside evaluations with `limit` calls allowed -/
def deepening (limit : Nat) : Lockstep Eval Eval where
  rel V x y := ∀ (env : Env) (m : Machine),
    Deepens V (x.outcome env m) (y.outcome (env.withMaxCallDepth limit) m)
  pure h _ _ := .ok h
  bind {_ _ _ _ x y f g} hx hf env m := by
    have hxy := hx env m
    rw [outcome_bind, outcome_bind]
    generalize x.outcome env m = o at hxy ⊢
    generalize y.outcome (env.withMaxCallDepth limit) m = o' at hxy ⊢
    cases hxy with
    | @ok a b m₁ hab => exact hf a b hab env m₁
    | error => exact .error
    | refused => exact .refused
  holding refs hx env m := hx { env with held := refs ++ env.held } m
  start c loc env m := by
    show Deepens Eq ((countStep loc).outcome _ _) ((countStep loc).outcome _ _)
    rw [outcome_countStep, outcome_countStep]
    exact .of_same fun _ _ => rfl
  step {_ _ p} hp hV env m := by
    have hbudgets : env.SameButBudgets (env.withMaxCallDepth limit) := ⟨rfl, rfl, rfl, rfl⟩
    show Deepens _ (p.outcome env m) (p.outcome (env.withMaxCallDepth limit) m)
    rw [← hp.outcome_eq hbudgets m]
    exact .of_same (hV env m)

theorem deepening_invoke (limit : Nat) {n n' : Nat} (hle : n ≤ n') :
    (deepening limit).simulation.Invokes (invoke n) (invoke n') := by
  induction n generalizing n' with
  | zero =>
    intro _ d d' home l l' args hd _ hl env m
    exact .refused
  | succ n ih =>
    obtain ⟨n', rfl⟩ := Nat.exists_eq_succ_of_ne_zero (Nat.ne_zero_of_lt hle)
    exact (deepening limit).simulation.calls_succ (ih (Nat.le_of_succ_le_succ hle))

theorem deepens_runBlock {limit : Nat} (scope : ScopeId) (block : Block) (env : Env) (m : Machine)
    (hle : env.config.maxCallDepth ≤ limit) :
    Deepens Eq ((runBlock scope block).outcome env m)
      ((runBlock scope block).outcome (env.withMaxCallDepth limit) m) := by
  rw [outcome_runBlock, outcome_runBlock]
  exact (deepening limit).simulation.runWith (w := ()) (deepening_invoke limit hle) trivial
    block.alike_self env m

/-! ## the budget of calls -/

/-- the count of calls is balanced, true and within the budget; and a larger budget changes nothing
for a run that is not refused a call.

In watched runs, however far they are followed: every evaluation, execution, call, assignment and
instantiation leaves the count as it was; and every statement that starts during a call of a script
function starts with at least this call in progress, while the count is the number of calls in
progress and within the budget.  A watched run of a block, once it is followed far enough, is the
run of the block. -/
theorem callBudget_balanced_and_transparent :
    (∀ fuel scope,
      (∀ e, (eval (Watch.invoke fuel) scope e).Balanced) ∧
      (∀ e, (evalSlot (Watch.invoke fuel) scope e).Balanced) ∧
      (∀ stmt, (perform (Watch.invoke fuel) scope stmt).Balanced) ∧
      (∀ block, (execute (Watch.invoke fuel) scope block).Balanced) ∧
      (∀ id args loc, (call (Watch.invoke fuel) id args loc).Balanced) ∧
      (∀ loc v target, (assign (Watch.invoke fuel) scope loc v target).Balanced) ∧
      (∀ loc className, (instantiate (Watch.invoke fuel) scope loc className).Balanced)) ∧
    (∀ fuel decl home args loc (v : Vantage) (w : Watched), w.depth = v.calls.length →
      ∃ l, ((Watch.invoke fuel decl home args loc).outcome v w).2.log = w.log ++ l ∧
        ∀ moment ∈ l, decl :: v.calls <:+ moment.calls ∧ moment.depth = moment.calls.length ∧
          1 ≤ moment.depth ∧ moment.depth ≤ v.env.config.maxCallDepth) ∧
    (∀ fuel scope block env m, env.config.maxCallDepth < fuel →
      let watched := Watch.run fuel scope block env m
      let outcome := (runBlock scope block).outcome env m
      watched.1 = outcome.1.mapError .error ∧ watched.2.machine = outcome.2 ∧
        watched.2.depth = 0 ∧ ∀ moment ∈ watched.2.log,
          moment.depth = moment.calls.length ∧ moment.depth ≤ env.config.maxCallDepth) ∧
    (∀ scope block env m limit, env.config.maxCallDepth ≤ limit →
      (∀ loc d, ((runBlock scope block).outcome env m).1 ≠ .error ⟨loc, .callDepthExceeded d⟩) →
      (runBlock scope block).outcome (env.withMaxCallDepth limit) m
        = (runBlock scope block).outcome env m) := by
  refine ⟨fun fuel scope => ?_, ?_, ?_, ?_⟩
  · let S := Watch.keeping.simulation
    have hi := Watch.keeping_invoke fuel
    exact ⟨fun e => Watch.balanced_of_keeping (S.eval (w := ()) hi trivial e.alike_self),
      fun e => Watch.balanced_of_keeping (S.evalSlot (w := ()) hi trivial e.alike_self),
      fun s => Watch.balanced_of_keeping (S.perform (w := ()) hi trivial s.alike_self),
      fun b => Watch.balanced_of_keeping (S.execute (w := ()) hi trivial b.alike_self),
      fun id args loc => Watch.balanced_of_keeping (S.call (w := ()) (l := loc) hi rfl id args),
      fun loc v e =>
        Watch.balanced_of_keeping (S.assign (w := ()) (l := loc) hi trivial rfl v e.alike_self),
      fun loc n => Watch.balanced_of_keeping (S.instantiate (w := ()) (l := loc) hi trivial rfl rfl)⟩
  · intro fuel decl home args loc v w hdepth
    obtain ⟨l, hlog, hcounted⟩ := Watch.counted_invoke fuel decl home args loc hdepth
    refine ⟨l, hlog, fun moment hmem => ?_⟩
    obtain ⟨hcalls, hdepth, hle⟩ := hcounted moment hmem
    have hlength := hcalls.length_le
    rw [List.length_cons] at hlength
    exact ⟨hcalls, hdepth, by omega, hle⟩
  · intro fuel scope block env m hfuel watched outcome
    obtain ⟨hresult, hmachine⟩ := Watch.run_eq env hfuel scope block m
    have hfollows := Watch.follows_run fuel scope block env m
    obtain ⟨l, hlog, -, hcounted⟩ := hfollows.log
    refine ⟨hresult, hmachine, hfollows.depth, fun moment hmem => ?_⟩
    have hmem : moment ∈ l := by simpa [watched, hlog] using hmem
    have hmoment := hcounted rfl (Nat.zero_le _) moment hmem
    exact ⟨hmoment.depth_eq, hmoment.depth_le⟩
  · intro scope block env m limit hle hnot
    have hdeepens := deepens_runBlock scope block env m hle
    generalize (runBlock scope block).outcome env m = o at hdeepens hnot ⊢
    generalize (runBlock scope block).outcome (env.withMaxCallDepth limit) m = o' at hdeepens ⊢
    cases hdeepens with
    | ok hab => rw [hab]
    | error => rfl
    | refused => exact absurd rfl (hnot _ _)

def innerSub : FunctionDecl :=
  ⟨⟨"page", 4, 1⟩, .sub, "inner", [], ⟨⟨"page", 5, 3⟩,
    [.assign ⟨"page", 5, 5⟩ (.path ⟨"page", 5, 3⟩ ["x"]) (.literal ⟨"page", 5, 7⟩ (.integer 1))]⟩⟩

def nestedCalls : Block :=
  ⟨⟨"page", 1, 1⟩,
    [.function ⟨⟨"page", 1, 1⟩, .sub, "outer", [],
      ⟨⟨"page", 2, 3⟩, [.expr ⟨"page", 2, 3⟩ (.path ⟨"page", 2, 3⟩ ["inner"])]⟩⟩,
    .function innerSub,
    .expr ⟨"page", 7, 1⟩ (.path ⟨"page", 7, 1⟩ ["outer"])]⟩

theorem callBudget_nestedCalls :
    let env : Env := ⟨⟨false, true, 2, none⟩, [.scope ⟨0⟩], true, #[]⟩
    let m : Machine := ⟨(Store.empty.newGlobal false).2, 0, #[]⟩
    (Watch.run 3 ⟨0⟩ nestedCalls env m).2.log.map Moment.depth = [0, 0, 0, 1, 2] ∧
      (∀ moment ∈ (Watch.run 3 ⟨0⟩ nestedCalls env m).2.log,
        moment.depth = moment.calls.length ∧ moment.depth ≤ env.config.maxCallDepth) ∧
      (∀ moment ∈ ((Watch.invoke 3 innerSub ⟨0⟩ [] default).outcome ⟨env, []⟩ ⟨m, 0, []⟩).2.log,
        1 ≤ moment.depth) ∧
      (runBlock ⟨0⟩ nestedCalls).outcome (env.withMaxCallDepth 64) m
        = (runBlock ⟨0⟩ nestedCalls).outcome env m := by
  intro env m
  obtain ⟨-, hcalls, hruns, hlarger⟩ := callBudget_balanced_and_transparent
  have hlog : (Watch.run 3 ⟨0⟩ nestedCalls env m).2.log.map Moment.depth = [0, 0, 0, 1, 2] := by
    decide +kernel
  have hresult : ((runBlock ⟨0⟩ nestedCalls).outcome env m).1 = .ok () := by decide +kernel
  have hmoments := (hruns 3 ⟨0⟩ nestedCalls env m (by decide)).2.2.2
  obtain ⟨l, hl, hinner⟩ := hcalls 3 innerSub ⟨0⟩ [] default ⟨env, []⟩ ⟨m, 0, []⟩ rfl
  refine ⟨hlog, hmoments, fun moment hmem => ?_,
    hlarger ⟨0⟩ nestedCalls env m 64 (by decide) fun loc d h => ?_⟩
  · rw [hl] at hmem
    exact (hinner moment hmem).2.2.1
  · rw [hresult] at h
    cases h

end Eval

end PageScript
