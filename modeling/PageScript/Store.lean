import PageScript.Host.Routine
import PageScript.NameTable
import PageScript.Program
import PageScript.Value

/-!
# The store

Everything a session creates: scopes, slots, objects and functions, each under an identity that is
never given out twice.  Nothing is ever removed; whether something still counts as present is a
question of who holds it, which `PageScript.Store.Liveness` answers.

A slot holds one value and may be bound under several names at once: that is how a parameter is
passed by reference.  A scope knows the scopes around it from the innermost outward.  An instance
of a class has a scope of its own, whose bindings are the slots of its fields and methods.
-/

namespace PageScript

structure ScopeId where
  index : Nat
deriving DecidableEq, Inhabited

structure SlotId where
  index : Nat
deriving DecidableEq, Inhabited

structure Scope where
  /-- the scopes around this one, innermost first -/
  outer : List ScopeId
  bindings : NameTable SlotId
  classes : NameTable ClassDecl
  /-- a name has to be declared before it is used -/
  isExplicit : Bool
  /-- where the result of a function is built up -/
  result : SlotId
  /-- the folded name of the function whose activation this is, if it has a result -/
  functionName : Option String
  /-- the instance whose scope this is -/
  owner : Option ObjectId
deriving Inhabited

structure Object where
  className : String
  fields : NameTable SlotId
  /-- the scope of an instance; an object of the host has none -/
  scope : Option ScopeId
deriving Inhabited

/-- a script's function or a routine of the host, with the scope that it belongs to -/
inductive Function
  | script (decl : FunctionDecl) (home : ScopeId)
  | host (name : String) (home : ScopeId) (routine : Routine)

instance : Inhabited Function := ⟨.host "" default default⟩

def Function.name : Function → String
  | .script decl _ => decl.name
  | .host name _ _ => name

structure Store where
  scopes : Array Scope
  slots : Array Value
  objects : Array Object
  functions : Array Function
deriving Inhabited

namespace Store

def empty : Store := ⟨#[], #[], #[], #[]⟩

/-! ## reading -/

def scope (s : Store) (id : ScopeId) : Scope := s.scopes[id.index]?.getD default
def slot (s : Store) (id : SlotId) : Value := s.slots[id.index]?.getD .empty
def object (s : Store) (id : ObjectId) : Object := s.objects[id.index]?.getD default
def function (s : Store) (id : FunctionId) : Function := s.functions[id.index]?.getD default

def isInstance (s : Store) (id : ObjectId) : Bool := (s.object id).scope.isSome

/-- the slot of a member of an object -/
def field? (s : Store) (id : ObjectId) (name : String) : Option SlotId :=
  (s.object id).fields.find? name

/-- what a page shows for a value -/
def text (s : Store) (v : Value) : String :=
  match v with
  | .object id => "[object " ++ (s.object id).className ++ "]"
  | .function id => "[function " ++ (s.function id).name ++ "]"
  | .empty => ""
  | .integer n => Text.decimal n
  | .string t => t
  | .boolean true => "True"
  | .boolean false => "False"

theorem text_of_plainText? (s : Store) {v : Value} {t : String} (h : v.plainText? = some t) :
    s.text v = t := by
  cases v with
  | boolean b => cases b <;> simpa [Value.plainText?, text] using h
  | _ => simp_all [Value.plainText?, text]

/-! ## creating -/

def newSlot (s : Store) (v : Value) : SlotId × Store :=
  (⟨s.slots.size⟩, { s with slots := s.slots.push v })

def newObject (s : Store) (o : Object) : ObjectId × Store :=
  (⟨s.objects.size⟩, { s with objects := s.objects.push o })

def newFunction (s : Store) (f : Function) : FunctionId × Store :=
  (⟨s.functions.size⟩, { s with functions := s.functions.push f })

/-- a new scope with a slot for a result -/
def newScope (s : Store) (outer : List ScopeId) (isExplicit : Bool) (functionName : Option String) :
    ScopeId × Store :=
  let (result, s) := s.newSlot .empty
  let scope : Scope :=
    { outer, bindings := .empty, classes := .empty, isExplicit, result,
      functionName := functionName.map Text.fold, owner := none }
  (⟨s.scopes.size⟩, { s with scopes := s.scopes.push scope })

/-- a scope with no scope around it -/
def newGlobal (s : Store) (isExplicit : Bool) : ScopeId × Store := s.newScope [] isExplicit none

def newChild (s : Store) (parent : ScopeId) (functionName : Option String) : ScopeId × Store :=
  let around := s.scope parent
  s.newScope (parent :: around.outer) around.isExplicit functionName

/-! ## changing -/

def setSlot (s : Store) (id : SlotId) (v : Value) : Store :=
  { s with slots := s.slots.setIfInBounds id.index v }

def modifyScope (s : Store) (id : ScopeId) (f : Scope → Scope) : Store :=
  { s with scopes := s.scopes.modify id.index f }

def modifyObject (s : Store) (id : ObjectId) (f : Object → Object) : Store :=
  { s with objects := s.objects.modify id.index f }

def bind (s : Store) (id : ScopeId) (name : String) (slot : SlotId) : Store :=
  s.modifyScope id fun scope => { scope with bindings := scope.bindings.insert name slot }

def declare (s : Store) (id : ScopeId) (name : String) (v : Value) : SlotId × Store :=
  let (slot, s) := s.newSlot v
  (slot, s.bind id name slot)

def setExplicit (s : Store) (id : ScopeId) (isExplicit : Bool) : Store :=
  s.modifyScope id fun scope => { scope with isExplicit }

def declareClass (s : Store) (id : ScopeId) (decl : ClassDecl) : Store :=
  s.modifyScope id fun scope => { scope with classes := scope.classes.insert decl.name decl }

/-- makes a slot a member of an object -/
def addField (s : Store) (id : ObjectId) (name : String) (slot : SlotId) : Store :=
  s.modifyObject id fun o => { o with fields := o.fields.insert name slot }

def define (s : Store) (id : ObjectId) (name : String) (v : Value) : SlotId × Store :=
  let (slot, s) := s.newSlot v
  (slot, s.addField id name slot)

/-- the object through which scripts write to the page, with its routine in a scope -/
def newResponse (s : Store) (home : ScopeId) : ObjectId × Store :=
  let (write, s) := s.newFunction (.host "write" home .write)
  let (response, s) := s.newObject ⟨"Response", .empty, none⟩
  (response, (s.define response "write" (.function write)).2)

end Store

end PageScript
