import PageScript.Proofs.Eval.Steps
import PageScript.Proofs.Program.Copying

/-!
# Guarded runs

A guarded run takes the steps of an ordinary run and watches over arguments that are picked.  From
the moment such an argument is evaluated, and as long as the arguments to its right are, its slot
has to keep its value; and it has to be passed to a script function, for a parameter that is bound
by value.  Where one of this fails, the run is broken off.

* `Guarded.guard`      what comes of a step;
* `Guarded.pledging`   a slot has to keep its value;
* `Guarded.demand`     a function has to copy the arguments that are picked;
* `Guarded.runBlock`   the guarded run of a program: the evaluator, run in this way.
-/

namespace PageScript

open Eval Runner

/-! ## the guard -/

/-- what a guarded run is given -/
structure Warrant where
  env : Env
  /-- the locations of the arguments that are picked -/
  pick : Location → Bool
  /-- slots that are passed, with the values that they have to keep -/
  pledges : List (SlotId × Value)

/-- why a guarded run has no result -/
inductive Breach
  | error (e : RuntimeError)
  /-- an argument that is picked has not kept its value, or is not passed by value -/
  | broken
deriving DecidableEq

abbrev Guarded : Type → Type := ReaderT Warrant (ExceptT Breach (StateM Machine))

/-- a function copies the arguments that are picked -/
def Function.copies (byRef : Bool) (picked : List Bool) : Function → Bool
  | .script decl _ =>
    (decl.params.zip picked).all fun (p, isPicked) => !(isPicked && p.byRef.getD byRef)
  | .host .. => picked.all fun isPicked => !isPicked

namespace Guarded

variable {α : Type}

def outcome (x : Guarded α) (g : Warrant) (m : Machine) : Except Breach α × Machine :=
  (x.run g).run.run m

theorem outcome_bind {β : Type} (x : Guarded α) (f : α → Guarded β) (g : Warrant) (m : Machine) :
    (x >>= f).outcome g m
      = match x.outcome g m with
        | (.ok a, m₁) => (f a).outcome g m₁
        | (.error e, m₁) => (.error e, m₁) := by
  simp only [outcome, ReaderT.run_bind, ExceptT.run_bind, StateT.run_bind]
  rcases (x.run g).run.run m with ⟨_ | a, m₁⟩ <;> rfl

/-- a computation from what it leaves -/
def ofOutcome (f : Warrant → Machine → Except Breach α × Machine) : Guarded α :=
  fun g => ExceptT.mk fun m => f g m

/-- the outcome of a step, after which every slot that is pledged holds its value -/
def guard (pledges : List (SlotId × Value)) : Except RuntimeError α × Machine →
    Except Breach α × Machine
  | (.ok a, m) =>
    if pledges.all fun p => m.store.slot p.1 = p.2 then (.ok a, m) else (.error .broken, m)
  | (.error e, m) => (.error (.error e), m)

def take (x : Eval α) : Guarded α := ofOutcome fun g m => guard g.pledges (x.outcome g.env m)

/-- evaluates something while more things are held -/
def keeping (refs : List Ref) (x : Guarded α) : Guarded α :=
  withReader (fun g => { g with env.held := refs ++ g.env.held }) x

/-- evaluates something while a slot has to keep its value -/
def pledging (slot : SlotId) (x : Guarded α) : Guarded α :=
  ofOutcome fun g m => x.outcome { g with pledges := (slot, m.store.slot slot) :: g.pledges } m

/-- breaks off unless a function copies the arguments that are picked -/
def demand (f : FunctionId) (args : List Expr) : Guarded Unit :=
  ofOutcome fun g m =>
    if (m.store.function f).copies g.env.config.byRef (args.map (·.isPicked g.pick)) then (.ok (), m)
    else (.error .broken, m)

instance : Runner Guarded where
  step := take
  holding := keeping
  start _ loc := take (countStep loc)
  beside e slot x := do
    if e.isPicked (← read).pick then pledging slot (keeping [.slot slot] x)
    else keeping [.slot slot] x
  passing f args x := do
    demand f args
    x

def runBlock (scope : ScopeId) (block : Block) : Guarded Unit := do
  runWith (calls (← read).env.config.maxCallDepth) scope block

end Guarded

end PageScript
