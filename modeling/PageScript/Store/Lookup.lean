import PageScript.RuntimeError
import PageScript.Store.Liveness

/-!
# Names in scopes

A name is looked for in a scope and then in the scopes around it, from the innermost outward.  A
scope around that has been dropped cannot be searched, which is a fault.

In a scope a name is first one of its bindings; in the activation of a function it is then the
function's own name, for the slot of the result; and in the scope of an instance it is then `me`,
for the instance, as long as the instance is alive.  A name that is called skips the result, so
that a function can call itself.

* `Store.find`           what a name stands for;
* `Store.findClass`      the class of a name, with the scope that declares it;
* `Action.resolve`       the slot of a variable, declared on the spot where that is allowed.
-/

namespace PageScript

inductive Found
  | slot (id : SlotId)
  /-- the instance around, which has no slot of its own -/
  | owner (id : ObjectId)
deriving DecidableEq

inductive Use
  | variable
  | callee
deriving DecidableEq

namespace Store

/-! ## searching -/

/-- the instance that `me` stands for in a scope -/
def owner? (s : Store) (held : List Ref) (scope : Scope) : Option ObjectId :=
  scope.owner.filter fun id => s.alive held (.object id)

/-- what a name stands for in one scope -/
def findHere (s : Store) (held : List Ref) (use : Use) (name : String) (id : ScopeId) :
    Option Found :=
  let scope := s.scope id
  match scope.bindings.find? name with
  | some slot => some (.slot slot)
  | none =>
    if use = .variable ∧ scope.functionName = some (Text.fold name) then some (.slot scope.result)
    else if Text.fold name = "me" then (s.owner? held scope).map .owner
    else none

/-- searches scopes from the innermost outward; all of them have to be alive -/
def search {α : Type} (s : Store) (held : List Ref) (here : ScopeId → Option α) :
    List ScopeId → Except RuntimeFault (Option α)
  | [] => .ok none
  | id :: outer =>
    if s.alive held (.scope id) then
      match here id with
      | some a => .ok (some a)
      | none => s.search held here outer
    else .error .scopeDropped

/-- searches a scope, then the scopes around it -/
def searchFrom {α : Type} (s : Store) (held : List Ref) (here : ScopeId → Option α) (id : ScopeId) :
    Except RuntimeFault (Option α) :=
  match here id with
  | some a => .ok (some a)
  | none => s.search held here (s.scope id).outer

def find (s : Store) (held : List Ref) (use : Use) (name : String) (id : ScopeId) :
    Except RuntimeFault (Option Found) :=
  s.searchFrom held (s.findHere held use name) id

/-- the class of a name, with the scope that declares it -/
def findClass (s : Store) (held : List Ref) (name : String) (id : ScopeId) :
    Except RuntimeFault (Option (ClassDecl × ScopeId)) :=
  s.searchFrom held (fun id => ((s.scope id).classes.find? name).map fun decl => (decl, id)) id

def parent (s : Store) (held : List Ref) (id : ScopeId) : Except RuntimeFault (Option ScopeId) :=
  match (s.scope id).outer with
  | [] => .ok none
  | p :: _ => if s.alive held (.scope p) then .ok (some p) else .error .scopeDropped

end Store

/-! ## actions on variables -/

/-- a step that reads and changes the store while some things are held from outside -/
abbrev Action (α : Type) := ReaderT (List Ref) (ExceptT RuntimeFault (StateM Store)) α

namespace Action

variable {α : Type}

/-- asks a question that can fail -/
def ask (question : Store → List Ref → Except RuntimeFault α) : Action α := do
  match question (← get) (← read) with
  | .ok a => return a
  | .error e => throw e

def change (f : Store → α × Store) : Action α := modifyGet f

/-- the slot that a name stands for, if it stands for anything -/
def lookup (use : Use) (id : ScopeId) (name : String) : Action (Option SlotId) := do
  match ← ask fun s held => s.find held use name id with
  | some (.slot slot) => return some slot
  | some (.owner object) => return some (← change (·.newSlot (.object object)))
  | none => return none

/-- the slot of a variable; without one it is declared here, unless declarations are compulsory -/
def resolve (id : ScopeId) (name : String) : Action SlotId := do
  match ← lookup .variable id name with
  | some slot => return slot
  | none =>
    if ((← get).scope id).isExplicit then throw (.undeclared name)
    else change (·.declare id name .empty)

def assign (id : ScopeId) (name : String) (v : Value) : Action Unit := do
  let slot ← resolve id name
  modify (·.setSlot slot v)

end Action

end PageScript
