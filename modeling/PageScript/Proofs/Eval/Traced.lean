import PageScript.Proofs.Eval.Lockstep

/-!
# Traced runs

A traced run takes the steps of an ordinary run and writes down what happens: every step with the
store before and behind it, and every statement that starts, with the scope that it starts in and
everything that is held at that moment.  So what a run does on the way can be spoken of, not only
what it leaves.

* `Trace.run`      a traced run of a block;
* `Trace.run_eq`   it has the result of the ordinary run, and leaves the same machine;
* `Trace.eval_eq`  so has a traced evaluation of an expression;
* `Trace.machine_execute`, `Trace.machine_runWith`, `Trace.machine_call`   what parts of a run leave.
-/

namespace PageScript

open Eval Runner

/-- what happens in a run -/
inductive Event
  /-- a step leads from one store to the next -/
  | step (before after : Store)
  /-- a statement starts in a scope, while things are held -/
  | start (scope : ScopeId) (loc : Location) (held : List Ref) (store : Store)

/-- the stores that are seen when something happens -/
def Event.stores : Event → List Store
  | .step before after => [before, after]
  | .start _ _ _ store => [store]

/-- a machine with what has happened in its run -/
structure Traced where
  machine : Machine
  log : List Event

abbrev Trace : Type → Type := ReaderT Env (ExceptT RuntimeError (StateM Traced))

namespace Trace

variable {α β : Type}

def outcome (x : Trace α) (env : Env) (t : Traced) : Except RuntimeError α × Traced :=
  (x.run env).run.run t

/-- a computation from what it leaves -/
def ofOutcome (f : Env → Traced → Except RuntimeError α × Traced) : Trace α :=
  fun env => ExceptT.mk fun t => f env t

def take (x : Eval α) : Trace α :=
  ofOutcome fun env t =>
    let (result, machine) := x.outcome env t.machine
    (result, ⟨machine, t.log ++ [.step t.machine.store machine.store]⟩)

/-- enters a statement that starts -/
def note (scope : ScopeId) (loc : Location) : Trace Unit :=
  ofOutcome fun env t =>
    (.ok (), { t with
      log := t.log ++ [.start scope loc (env.heldIn t.machine) t.machine.store] })

instance : Runner Trace where
  step := take
  holding refs x := withReader (fun env => { env with held := refs ++ env.held }) x
  start scope loc := do
    note scope loc
    take (countStep loc)

instance : Ordinary Trace := ⟨fun _ _ _ => rfl, fun _ _ _ => rfl⟩

/-- runs a script function where `n` more calls within calls are allowed -/
def invoke (n : Nat) : Invoke Trace := calls n

/-! ## outcomes -/

theorem outcome_bind (x : Trace α) (f : α → Trace β) (env : Env) (t : Traced) :
    (x >>= f).outcome env t
      = match x.outcome env t with
        | (.ok a, t₁) => (f a).outcome env t₁
        | (.error e, t₁) => (.error e, t₁) := by
  simp only [outcome, ReaderT.run_bind, ExceptT.run_bind, StateT.run_bind]
  rcases (x.run env).run.run t with ⟨_ | a, t₁⟩ <;> rfl

theorem outcome_step (p : Eval α) (env : Env) (t : Traced) :
    (step p : Trace α).outcome env t
      = ((p.outcome env t.machine).1, ⟨(p.outcome env t.machine).2,
          t.log ++ [.step t.machine.store (p.outcome env t.machine).2.store]⟩) := rfl

/-- a statement is entered into the log and counted -/
theorem outcome_start (scope : ScopeId) (loc : Location) (env : Env) (t : Traced) :
    (start scope loc : Trace Unit).outcome env t
      = (step (countStep loc) : Trace Unit).outcome env { t with
          log := t.log ++ [.start scope loc (env.heldIn t.machine) t.machine.store] } := rfl

/-! ## what is left without the trace -/

/-- a traced outcome and an ordinary one, with the same machine -/
inductive Erased (V : α → α → Prop) :
    Except RuntimeError α × Traced → Except RuntimeError α × Machine → Prop
  | ok {a b t} : V a b → Erased V (.ok a, t) (.ok b, t.machine)
  | error {e t} : Erased V (.error e, t) (.error e, t.machine)

theorem Erased.result {o : Except RuntimeError α × Traced} {o' : Except RuntimeError α × Machine}
    (h : Erased Eq o o') : o.1 = o'.1 := by
  cases h with
  | ok hab => rw [hab]
  | error => rfl

theorem Erased.machine {V : α → α → Prop} {o : Except RuntimeError α × Traced}
    {o' : Except RuntimeError α × Machine} (h : Erased V o o') : o.2.machine = o'.2 := by
  cases h <;> rfl

theorem erased_step {V : α → α → Prop} {p : Eval α} {env : Env} {t : Traced}
    (hV : ∀ a, (p.outcome env t.machine).1 = .ok a → V a a) :
    Erased V ((step p : Trace α).outcome env t) (p.outcome env t.machine) := by
  rw [outcome_step]
  generalize p.outcome env t.machine = o at hV ⊢
  rcases o with ⟨e | a, m⟩
  · exact .error (t := ⟨m, _⟩)
  · exact .ok (t := ⟨m, _⟩) (hV a rfl)

/-- traced evaluations beside ordinary ones -/
def erasing : Lockstep Trace Eval where
  rel V x y := ∀ env t, Erased V (x.outcome env t) (y.outcome env t.machine)
  pure hab env t := .ok hab
  bind {_ _ _ _ x y f g} hx hf env t := by
    have hxy := hx env t
    rw [outcome_bind, Eval.outcome_bind]
    generalize x.outcome env t = o at hxy ⊢
    generalize y.outcome env t.machine = o' at hxy ⊢
    cases hxy with
    | ok hab => exact hf _ _ hab env _
    | error => exact .error
  holding refs hx env t := hx { env with held := refs ++ env.held } t
  start scope loc env t := by
    rw [outcome_start]
    exact erased_step (p := countStep loc) fun _ _ => rfl
  step _ hV env t := erased_step (hV env t.machine)

theorem erasing_invoke (n : Nat) : erasing.simulation.Invokes (invoke n) (Eval.invoke n) := by
  induction n with
  | zero =>
    intro _ d d' home l l' args _ _ hl env t
    obtain rfl : l = l' := hl
    exact erased_step (p := refuseCall l) fun _ _ => rfl
  | succ n ih => exact erasing.simulation.calls_succ ih

/-! ## moments -/

/-- the store where a trace has got -/
def reached (s : Store) : List Event → Store
  | [] => s
  | .step _ after :: l => reached after l
  | .start .. :: l => reached s l

/-! ## whole runs -/

def run (scope : ScopeId) (block : Block) (env : Env) (m : Machine) :
    Except RuntimeError Unit × Traced :=
  (runWith (invoke env.config.maxCallDepth) scope block).outcome env ⟨m, []⟩

/-- a traced run has the result of the ordinary run, and leaves the same machine -/
theorem run_eq (scope : ScopeId) (block : Block) (env : Env) (m : Machine) :
    (run scope block env m).1 = ((runBlock scope block).outcome env m).1 ∧
      (run scope block env m).2.machine = ((runBlock scope block).outcome env m).2 := by
  have hrun : Erased Eq (run scope block env m)
      ((runWith (Eval.invoke env.config.maxCallDepth) scope block).outcome env m) :=
    erasing.simulation.runWith (w := ()) (erasing_invoke _) trivial block.alike_self env ⟨m, []⟩
  rw [outcome_runBlock]
  exact ⟨hrun.result, hrun.machine⟩

/-- a traced evaluation of an expression has the result of the ordinary one -/
theorem eval_eq (n : Nat) (scope : ScopeId) (e : Expr) (env : Env) (t : Traced) :
    ((eval (invoke n) scope e).outcome env t).1
      = ((eval (Eval.invoke n) scope e).outcome env t.machine).1 := by
  have herased : Erased Eq ((eval (invoke n) scope e).outcome env t)
      ((eval (Eval.invoke n) scope e).outcome env t.machine) :=
    erasing.simulation.eval (w := ()) (erasing_invoke n) trivial e.alike_self env t
  exact herased.result

/-! ## what is left of the machine -/

theorem machine_eval (n : Nat) (scope : ScopeId) (e : Expr) (env : Env) (t : Traced) :
    ((eval (invoke n) scope e).outcome env t).2.machine
      = ((eval (Eval.invoke n) scope e).outcome env t.machine).2 := by
  have herased : Erased Eq ((eval (invoke n) scope e).outcome env t)
      ((eval (Eval.invoke n) scope e).outcome env t.machine) :=
    erasing.simulation.eval (w := ()) (erasing_invoke n) trivial e.alike_self env t
  exact herased.machine

theorem machine_execute (n : Nat) (scope : ScopeId) (b : Block) (env : Env) (t : Traced) :
    ((execute (invoke n) scope b).outcome env t).2.machine
      = ((execute (Eval.invoke n) scope b).outcome env t.machine).2 := by
  have herased : Erased Eq ((execute (invoke n) scope b).outcome env t)
      ((execute (Eval.invoke n) scope b).outcome env t.machine) :=
    erasing.simulation.execute (w := ()) (erasing_invoke n) trivial b.alike_self env t
  exact herased.machine

theorem machine_runWith (n : Nat) (scope : ScopeId) (b : Block) (env : Env) (t : Traced) :
    ((runWith (invoke n) scope b).outcome env t).2.machine
      = ((runWith (Eval.invoke n) scope b).outcome env t.machine).2 := by
  have herased : Erased Eq ((runWith (invoke n) scope b).outcome env t)
      ((runWith (Eval.invoke n) scope b).outcome env t.machine) :=
    erasing.simulation.runWith (w := ()) (erasing_invoke n) trivial b.alike_self env t
  exact herased.machine

theorem machine_call (n : Nat) (f : FunctionId) (args : List SlotId) (l : Location) (env : Env)
    (t : Traced) :
    ((call (invoke n) f args l).outcome env t).2.machine
      = ((call (Eval.invoke n) f args l).outcome env t.machine).2 := by
  have herased : Erased Eq ((call (invoke n) f args l).outcome env t)
      ((call (Eval.invoke n) f args l).outcome env t.machine) :=
    erasing.simulation.call (w := ()) (erasing_invoke n) rfl f args env t
  exact herased.machine

end Trace

end PageScript
