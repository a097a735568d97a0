import Mathlib.Order.CompleteBooleanAlgebra
import Mathlib.Order.CompletePartialOrder
import PageScript.Proofs.Eval.Steps

/-!
# Steps that do not see the budgets

A step is plain when it does not look at the budgets, starts no statement and takes back nothing
that was written.  Every single step of the evaluator is plain: the budgets are only looked at where
a statement starts and where a script function is called.

So runs that differ in the budgets, or in what is observed of them, take the same steps.  To compare
two such runners (`Lockstep`) it is enough to say what happens when a statement starts, and to
compare the two ways to run a script function.
-/

namespace PageScript

open Eval Runner

/-! ## where a statement starts -/

/-- the result of counting a statement that is the `n`-th one -/
def Config.budgetAt (c : Config) (loc : Location) (n : Nat) : Except RuntimeError Unit :=
  match c.maxSteps with
  | some limit => if limit < n then .error ⟨loc, .stepLimitExceeded limit⟩ else .ok ()
  | none => .ok ()

theorem Eval.outcome_countStep (loc : Location) (env : Env) (m : Machine) :
    (countStep loc).outcome env m
      = (env.config.budgetAt loc (m.steps + 1), { m with steps := m.steps + 1 }) := by
  obtain ⟨⟨_, _, _, budget⟩, _, _, _⟩ := env
  cases budget with
  | none => rfl
  | some limit =>
    show (if limit < m.steps + 1 then fail loc (.stepLimitExceeded limit) else return () :
      Eval Unit).outcome _ { m with steps := m.steps + 1 } = _
    simp only [Config.budgetAt]
    split <;> rfl

/-! ## plain steps -/

/-- what a run is given is the same, up to the budgets -/
structure Env.SameButBudgets (env env' : Env) : Prop where
  held : env.held = env'.held
  keepsOutput : env.keepsOutput = env'.keepsOutput
  byRef : env.config.byRef = env'.config.byRef
  callbacks : env.callbacks = env'.callbacks

theorem Env.SameButBudgets.heldIn {env env' : Env} (h : env.SameButBudgets env') (m : Machine) :
    env.heldIn m = env'.heldIn m := by
  rw [Env.heldIn, Env.heldIn, h.held, h.keepsOutput]

theorem Env.SameButBudgets.callback {env env' : Env} (h : env.SameButBudgets env') (index : Nat) :
    env.callback index = env'.callback index := by
  rw [Env.callback, Env.callback, h.callbacks]

/-- an evaluation that does not look at the budgets, starts no statement and takes back nothing
that was written -/
structure Eval.Plain {α : Type} (x : Eval α) : Prop where
  outcome_eq : ∀ {env env'}, Env.SameButBudgets env env' → ∀ m, x.outcome env m = x.outcome env' m
  steps_eq : ∀ env m, (x.outcome env m).2.steps = m.steps
  output_grows : ∀ env m, m.output.toList <+: (x.outcome env m).2.output.toList

namespace Eval

variable {α β : Type}

theorem Plain.bind {x : Eval α} {f : α → Eval β} (hx : x.Plain) (hf : ∀ a, (f a).Plain) :
    (x >>= f).Plain where
  outcome_eq := by
    intro env env' h m
    rw [outcome_bind, outcome_bind, hx.outcome_eq h m]
    rcases x.outcome env' m with ⟨_ | a, m₁⟩
    · rfl
    · exact (hf a).outcome_eq h m₁
  steps_eq := by
    intro env m
    have hsteps := hx.steps_eq env m
    rw [outcome_bind]
    generalize x.outcome env m = o at hsteps ⊢
    rcases o with ⟨_ | a, m₁⟩
    · exact hsteps
    · exact ((hf a).steps_eq env m₁).trans hsteps
  output_grows := by
    intro env m
    have houtput := hx.output_grows env m
    rw [outcome_bind]
    generalize x.outcome env m = o at houtput ⊢
    rcases o with ⟨_ | a, m₁⟩
    · exact houtput
    · exact houtput.trans ((hf a).output_grows env m₁)

theorem Plain.tryCatch {x : Eval α} {f : RuntimeError → Eval α} (hx : x.Plain)
    (hf : ∀ e, (f e).Plain) : (tryCatch x f).Plain where
  outcome_eq := by
    intro env env' h m
    rw [outcome_tryCatch, outcome_tryCatch, hx.outcome_eq h m]
    rcases x.outcome env' m with ⟨e | _, m₁⟩
    · exact (hf e).outcome_eq h m₁
    · rfl
  steps_eq := by
    intro env m
    have hsteps := hx.steps_eq env m
    rw [outcome_tryCatch]
    generalize x.outcome env m = o at hsteps ⊢
    rcases o with ⟨e | _, m₁⟩
    · exact ((hf e).steps_eq env m₁).trans hsteps
    · exact hsteps
  output_grows := by
    intro env m
    have houtput := hx.output_grows env m
    rw [outcome_tryCatch]
    generalize x.outcome env m = o at houtput ⊢
    rcases o with ⟨e | _, m₁⟩
    · exact houtput.trans ((hf e).output_grows env m₁)
    · exact houtput

theorem Plain.held : held.Plain where
  outcome_eq h m := by rw [outcome_held, outcome_held, h.heldIn]
  steps_eq env m := by rw [outcome_held]
  output_grows env m := by simp only [outcome_held, List.prefix_rfl]

theorem Plain.write (v : Value) : (write v).Plain where
  outcome_eq _ _ := rfl
  steps_eq _ _ := rfl
  output_grows _ m := by
    show m.output.toList <+: (m.output.push v).toList
    simp

theorem Plain.fail (l : Location) (f : RuntimeFault) : (fail l f : Eval α).Plain :=
  ⟨fun _ _ => rfl, fun _ _ => rfl, fun _ _ => List.prefix_rfl⟩

theorem Plain.answer (index : Nat) (home : ScopeId) (args : List SlotId) :
    (answer index home args).Plain where
  outcome_eq h m := by rw [outcome_answer, outcome_answer, h.heldIn, h.callback]
  steps_eq env m := by rw [outcome_answer]
  output_grows env m := by simp only [outcome_answer, List.prefix_rfl]

/-- what plain evaluations are put together to is plain, whatever they do to the store -/
theorem Plain.closed : Eval.Closed @Plain (fun _ _ => True) fun _ => True where
  pure _ := ⟨fun _ _ => rfl, fun _ _ => rfl, fun _ _ => List.prefix_rfl⟩
  bind := .bind
  tryCatch := .tryCatch
  fail := .fail
  held := .held
  store := ⟨fun _ _ => rfl, fun _ _ => rfl, fun _ _ => List.prefix_rfl⟩
  write := .write
  change _ := ⟨fun _ _ => rfl, fun _ _ => rfl, fun _ _ => List.prefix_rfl⟩
  answer index home args _ := .answer index home args

theorem Plain.act (l : Location) (x : Action α) : (act l x).Plain :=
  Plain.closed.act l fun _ _ => trivial

theorem Plain.function (id : FunctionId) : (function id).Plain := Plain.closed.reading _

theorem Plain.isExplicit (id : ScopeId) : (isExplicit id).Plain := Plain.closed.reading _

theorem Plain.resultSlot (id : ScopeId) : (resultSlot id).Plain := Plain.closed.reading _

theorem Plain.enter (d : FunctionDecl) (home : ScopeId) (args : List SlotId) :
    (enter d home args).Plain where
  outcome_eq := by
    intro env env' h m
    show (Eval.change (activate env.config.byRef d home args)).outcome env m = _
    rw [h.byRef]
    rfl
  steps_eq _ _ := rfl
  output_grows _ _ := List.prefix_rfl

end Eval

theorem Store.tolerates_anything (fit : ScopeId → Prop) :
    Store.Tolerates (fun _ _ => True) fit := by
  constructor <;> intros <;> trivial

/-! ## runners that take the same steps -/

/-- a comparison of two runners that take the same plain steps -/
structure Lockstep (m m' : Type → Type) [Runner m] [Runner m'] where
  /-- computations that go alike, with results related by `V` -/
  rel {α : Type} : (V : α → α → Prop) → m α → m' α → Prop
  pure : ∀ {α : Type} {V : α → α → Prop} {a b : α}, V a b → rel V (pure a) (pure b)
  bind : ∀ {α β : Type} {V : α → α → Prop} {U : β → β → Prop} {x : m α} {y : m' α}
    {f : α → m β} {g : α → m' β}, rel V x y → (∀ a b, V a b → rel U (f a) (g b)) →
    rel U (x >>= f) (y >>= g)
  holding : ∀ {α : Type} {V : α → α → Prop} {x : m α} {y : m' α} (refs : List Ref),
    rel V x y → rel V (holding refs x) (holding refs y)
  start : ∀ c l, rel Eq (start c l) (start c l)
  step : ∀ {α : Type} {V : α → α → Prop} {p : Eval α}, p.Plain →
    (∀ env m a, (p.outcome env m).1 = .ok a → V a a) → rel V (step p) (step p)

namespace Lockstep

variable {m m' : Type → Type} [Runner m] [Runner m']

/-- runners that take the same steps run the same programs alike -/
def simulation (L : Lockstep m m') : Simulation Unit m m' where
  like := .equal
  scope _ _ := True
  scope_mono _ _ := trivial
  routine _ := True
  rel w V := L.rel (V w)
  pure := L.pure
  bind hx hf := L.bind hx fun a b hab => hf () a b le_rfl hab
  holding := L.holding
  start _ hl := by
    obtain rfl := hl
    exact L.start _ _
  fail hl hf := by
    obtain rfl := hl
    obtain rfl := hf.eq
    exact L.step (.fail _ _) fun _ _ _ h => nomatch h
  unknown {_ c l _ n _} _ hl hn := by
    obtain rfl := hl
    obtain rfl := hn
    refine L.bind (V := Eq) (L.step (.isExplicit c) fun _ _ _ _ => rfl) ?_
    rintro explicit _ rfl
    cases explicit with
    | true => exact L.step (.fail l (.undeclared n)) fun _ _ _ h => nomatch h
    | false => exact L.pure rfl
  same h := by
    obtain ⟨rfl, hp⟩ := h.closed Plain.closed (Store.tolerates_anything _)
    exact L.step hp fun _ _ _ _ => rfl
  findClass _ hl hn := by
    obtain rfl := hl
    obtain rfl := hn
    refine L.step (.act _ _) fun _ _ found _ => ?_
    cases found with
    | none => exact .none
    | some p => exact .some ⟨p.1.alike_self, rfl, trivial⟩
  function id := by
    refine L.step (.function id) fun _ _ f _ => ⟨f.alike_self, trivial, ?_⟩
    cases f <;> trivial
  enter args hd _ := by
    obtain rfl := hd.eq
    exact L.step (.enter _ _ args) fun _ _ _ _ => ⟨rfl, trivial⟩

end Lockstep

end PageScript
