import PageScript.Eval.Statement
import PageScript.Script

/-!
# Sessions

A session runs scripts one after the other in one global scope.  The host registers values and
routines there first; what a script leaves in the global scope, the next one finds.

Every run has its own budgets.  A host can also go on with the count of statements from run to run
(`Session.resume`).

The host holds the global scope, and whatever else it lists as pinned.  A page that records what is
written holds it until the record is cleared; a page that shows it at once does not.
-/

namespace PageScript

structure Session where
  config : Config
  store : Store
  globals : ScopeId
  /-- values written since the record was cleared -/
  output : Array Value
  /-- written values stay held by the record -/
  records : Bool
  /-- statements started by the runs that share a count -/
  steps : Nat
  /-- further things that the host holds -/
  pinned : List Ref
  /-- the callbacks that the host has brought along -/
  callbacks : Array Callback

namespace Session

variable {α : Type}

def start (config : Config) (records : Bool) : Session :=
  let (globals, store) := Store.empty.newGlobal config.isExplicit
  { config, store, globals, output := #[], records, steps := 0, pinned := [],
    callbacks := #[] }

/-! ## registration -/

/-- changes the store of a session and yields something -/
def change (s : Session) (f : Store → α × Store) : α × Session :=
  let (a, store) := f s.store
  (a, { s with store })

def register (s : Session) (name : String) (v : Value) : Session :=
  (s.change (·.declare s.globals name v)).2

def registerRoutine (s : Session) (name : String) (routine : Routine) : Session :=
  let (f, s) := s.change (·.newFunction (.host name s.globals routine))
  s.register name (.function f)

def registerCallback (s : Session) (name : String) (f : Callback) : Session :=
  registerRoutine { s with callbacks := s.callbacks.push f } name (.callback s.callbacks.size)

/-- binds `response`, through which scripts write to the page -/
def registerResponse (s : Session) : Session :=
  let (response, s) := s.change (·.newResponse s.globals)
  s.register "response" (.object response)

/-! ## runs -/

/-- what a run of the session is given -/
def env (s : Session) : Env :=
  ⟨s.config, .scope s.globals :: s.pinned, s.records, s.callbacks⟩

/-- an evaluation that starts with a count of statements; yields its result and the new count -/
def perform (s : Session) (steps : Nat) (x : Eval α) : Except RuntimeError α × Nat × Session :=
  let (result, m) := (x.run s.env).run.run ⟨s.store, steps, s.output⟩
  (result, m.steps, { s with store := m.store, output := m.output })

/-- runs a program with fresh budgets -/
def run (s : Session) (block : Block) : Except RuntimeError Unit × Session :=
  let (result, _, s) := s.perform 0 (Eval.runBlock s.globals block)
  (result, s)

/-- runs a program and goes on with the shared count of statements -/
def resume (s : Session) (block : Block) : Except RuntimeError Unit × Session :=
  let (result, steps, s) := s.perform s.steps (Eval.runBlock s.globals block)
  (result, { s with steps })

/-- the value of an expression in the global scope, with fresh budgets -/
def eval (s : Session) (e : Expr) : Except RuntimeError Value × Session :=
  let (result, _, s) := s.perform 0 (Eval.runExpr s.globals e)
  (result, s)

def evalText (s : Session) (text : String) : Except ScriptError Value × Session :=
  match Expr.ofText "<eval>" text with
  | .error e => (.error (.parse e), s)
  | .ok e =>
    let (result, s) := s.eval e
    (result.mapError .runtime, s)

/-! ## the page -/

/-- the text of everything written since the record was cleared -/
def outputText (s : Session) : String := String.join (s.output.toList.map s.store.text)

def clearOutput (s : Session) : Session := { s with output := #[] }

/-- the names bound in the global scope, with their values -/
def globalValues (s : Session) : List (String × Value) :=
  let bindings := (s.store.scope s.globals).bindings
  bindings.names.filterMap fun name =>
    (bindings.find? name).map fun slot => (name, s.store.slot slot)

end Session

end PageScript
