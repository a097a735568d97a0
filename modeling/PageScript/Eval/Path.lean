import PageScript.Host.Call
import PageScript.Program.Source
import PageScript.Store.Instance

/-!
# Calls and paths

A function that stands where a value is wanted is called without arguments.  So a path can run
script code at each of its names; `Invoke` stands for the way script functions are run, which
`PageScript.Eval.Statement` supplies.

What is held: during a call the slots of its arguments, during an implicit call the slot that
holds the function.  On the way along a path an object is let go as soon as the slot of its member
is known.
-/

namespace PageScript

/-- the way to run a script function: its declaration, the scope that it belongs to, the slots of
its arguments and the location of the call -/
abbrev Invoke (m : Type → Type) := FunctionDecl → ScopeId → List SlotId → Location → m SlotId

namespace Eval

open Runner

variable {m : Type → Type} [Runner m]

/-! ## calls -/

/-- a call of a function whose scope is alive -/
def callIn (invoke : Invoke m) (f : Function) (args : List SlotId) (loc : Location) :
    m SlotId := do
  match f with
  | .script decl home =>
    if args.length = decl.params.length then invoke decl home args loc
    else fail loc (.arityMismatch decl.name decl.params.length args.length)
  | .host _ home routine =>
    let v ← holding (.scope home :: args.map .slot) (step (routine.call loc home args))
    newSlot v

/-- the scope that a function belongs to -/
def homeOf : Function → ScopeId
  | .script _ home => home
  | .host _ home _ => home

def call (invoke : Invoke m) (id : FunctionId) (args : List SlotId) (loc : Location) :
    m SlotId := do
  let f ← function id
  if ← holding (args.map .slot) (step (isAlive (.scope (homeOf f)))) then callIn invoke f args loc
  else fail loc .scopeDropped

/-- calls the function in a slot, if there is one -/
def implicitCall (invoke : Invoke m) (loc : Location) (slot : SlotId) : m SlotId := do
  match ← getSlot slot with
  | .function id => holding [.slot slot] (call invoke id [] loc)
  | _ => return slot

/-! ## paths -/

/-- the object in a slot, or that a function in the slot yields; `names` is the path to it -/
def objectIn (invoke : Invoke m) (loc : Location) (names : List String) (slot : SlotId) :
    m ObjectId := do
  match ← getSlot (← implicitCall invoke loc slot) with
  | .object id => return id
  | _ => fail loc (.notAnObject (dotted names))

/-- selects members one after the other, from the slot at the end of the path `passed` -/
def selectMembers (invoke : Invoke m) (loc : Location) (passed : List String) (slot : SlotId) :
    List String → m SlotId
  | [] => return slot
  | member :: members => do
    let object ← objectIn invoke loc passed slot
    match ← member? object member with
    | some slot => selectMembers invoke loc (passed ++ [member]) slot members
    | none => fail loc (.unknownMember member)

/-- the slot at the end of a path -/
def resolvePath (invoke : Invoke m) (scope : ScopeId) (loc : Location) : List String → m SlotId
  | [] => fail loc .invalidAssignmentTarget
  | first :: members => do
    let slot ← act loc (Action.resolve scope first)
    selectMembers invoke loc [first] slot members

/-- the slot at the end of a path, or the result of the function in it -/
def pathSlot (invoke : Invoke m) (scope : ScopeId) (loc : Location) (names : List String) :
    m SlotId := do
  implicitCall invoke loc (← resolvePath invoke scope loc names)

/-! ## callees -/

/-- the value that is called; a name alone is not a variable here -/
def calleeValue (invoke : Invoke m) (scope : ScopeId) (value : m Value) : Expr → m Value
  | .path loc [name] => do
    match ← act loc (Action.lookup .callee scope name) with
    | some slot => getSlot slot
    | none =>
      if ← isExplicit scope then fail loc (.undeclared name) else return .empty
  | .path loc names => do getSlot (← resolvePath invoke scope loc names)
  | _ => value

/-- the function that an expression names; `value` evaluates what is not a path -/
def callee (invoke : Invoke m) (scope : ScopeId) (e : Expr) (value : m Value) :
    m FunctionId := do
  match ← calleeValue invoke scope value e with
  | .function id => return id
  | _ => fail e.location (.notCallable e.source)

/-! ## instances -/

/-- runs the initialisation of an instance, if its class has one -/
def initialise (invoke : Invoke m) (loc : Location) (object : ObjectId) : m Unit := do
  match ← member? object "class_initialize" with
  | some slot =>
    match ← getSlot slot with
    | .function id =>
      let _ ← call invoke id [] loc
      return ()
    | _ => return ()
  | none => return ()

def instantiate (invoke : Invoke m) (scope : ScopeId) (loc : Location) (className : String) :
    m Value := do
  match ← act loc (Action.ask fun s held => s.findClass held className scope) with
  | none => fail loc (.unknownClass className)
  | some (decl, home) =>
    let (object, own) ← change (·.newInstance decl home)
    holding [.scope home, .scope own, .object object] (initialise invoke loc object)
    return .object object

end Eval

end PageScript
