import PageScript.Config
import PageScript.Store.Hoist
import PageScript.Store.Lookup
import PageScript.Value.Operation

/-!
# The state of a run

A machine is what a run changes: the store, the number of statements started and the values
written to the page.  Around it stands what a run is given: the configuration, the things that
the host and the evaluations in progress hold (`Env.held`), and the callbacks of the host.

An evaluation yields a result or stops with an error; the machine keeps every change made before
the error.

* `Eval.act`         an action on variables, with a location for its fault;
* `Eval.countStep`   counts a statement against the budget;
* `Runner`           what the evaluator needs of the way it is run.

The evaluator is written once for every runner.  `Eval` is the runner of a session: its steps are
its own, and it counts the statements that start.
-/

namespace PageScript

structure Machine where
  store : Store
  /-- statements started so far -/
  steps : Nat
  /-- values written so far -/
  output : Array Value
deriving Inhabited

structure Answer where
  /-- a value, or a message that refuses the arguments -/
  result : Except String Value
  /-- what it has written to the page -/
  written : List Value

/-- a function that a host brings along: from the things that are held, the scope that it belongs to
and the slots of its arguments, it answers and may change the store.  It is given no way to start
statements or calls in the run that calls it -/
def Callback : Type := List Ref → ScopeId → List SlotId → Store → Answer × Store

/-- the callback that does nothing -/
instance : Inhabited Callback := ⟨fun _ _ _ s => (⟨.ok .empty, []⟩, s)⟩

/-- what a run is given -/
structure Env where
  config : Config
  /-- things held by the host and by evaluations in progress -/
  held : List Ref
  /-- a written value stays held by the page -/
  keepsOutput : Bool
  /-- the callbacks of the host, by their numbers -/
  callbacks : Array Callback

/-- the callback with a number -/
def Env.callback (env : Env) (index : Nat) : Callback := env.callbacks[index]?.getD default

abbrev Eval : Type → Type := ReaderT Env (ExceptT RuntimeError (StateM Machine))

namespace Eval

variable {α : Type}

def fail (loc : Location) (fault : RuntimeFault) : Eval α := throw ⟨loc, fault⟩

/-- a result, or a fault at a location -/
def check (loc : Location) : Except RuntimeFault α → Eval α
  | .ok a => return a
  | .error fault => fail loc fault

/-- everything that is held from outside the store -/
def held : Eval (List Ref) := do
  let env ← read
  if env.keepsOutput then return env.held ++ (← get).output.toList.flatMap Value.refs
  else return env.held

/-- an action on variables, with a location for its fault -/
def act (loc : Location) (x : Action α) : Eval α := do
  let held ← held
  let m ← get
  let (result, store) := (x.run held).run.run m.store
  set { m with store }
  check loc result

def store : Eval Store := return (← get).store

/-- changes the store and yields something -/
def change (f : Store → α × Store) : Eval α :=
  modifyGet fun m => let (a, store) := f m.store; (a, { m with store })

def modifyStore (f : Store → Store) : Eval Unit := modify fun m => { m with store := f m.store }

def newSlot (v : Value) : Eval SlotId := change (·.newSlot v)

def getSlot (id : SlotId) : Eval Value := return (← store).slot id

def setSlot (id : SlotId) (v : Value) : Eval Unit := modifyStore (·.setSlot id v)

/-- a thing counts as present while it is alive -/
def isAlive (r : Ref) : Eval Bool := return (← store).alive (← held) r

def member? (id : ObjectId) (name : String) : Eval (Option SlotId) :=
  return (← store).field? id name

def isInstance (id : ObjectId) : Eval Bool := return (← store).isInstance id

def function (id : FunctionId) : Eval Function := return (← store).function id

/-- names have to be declared in a scope -/
def isExplicit (id : ScopeId) : Eval Bool := return ((← store).scope id).isExplicit

/-- where the result of a function is built up -/
def resultSlot (id : ScopeId) : Eval SlotId := return ((← store).scope id).result

def write (v : Value) : Eval Unit := modify fun m => { m with output := m.output.push v }

/-- has a callback of the host answer -/
def answer (index : Nat) (home : ScopeId) (args : List SlotId) : Eval Answer := do
  let env ← read
  let held ← held
  change (env.callback index held home args)

def countStep (loc : Location) : Eval Unit := do
  modify fun m => { m with steps := m.steps + 1 }
  match (← read).config.maxSteps with
  | some limit => if limit < (← get).steps then fail loc (.stepLimitExceeded limit) else return ()
  | none => return ()

end Eval

/-! ## runners -/

/-- a way to run scripts, by steps on the machine one after the other -/
class Runner (m : Type → Type) extends Monad m where
  /-- a step on the machine -/
  step {α : Type} : Eval α → m α
  /-- evaluates something while more things are held -/
  holding {α : Type} : List Ref → m α → m α
  /-- a statement starts in a scope -/
  start : ScopeId → Location → m Unit
  /-- an argument passes a slot, while the arguments to its right are evaluated -/
  beside {α : Type} : Expr → SlotId → m α → m α := fun _ slot x => holding [.slot slot] x
  /-- a function is called with what arguments pass -/
  passing {α : Type} : FunctionId → List Expr → m α → m α := fun _ _ x => x

instance {m : Type → Type} [Runner m] : MonadLift Eval m := ⟨Runner.step⟩

instance : Runner Eval where
  step x := x
  holding refs x := withReader (fun env => { env with held := refs ++ env.held }) x
  start _ loc := Eval.countStep loc

end PageScript
