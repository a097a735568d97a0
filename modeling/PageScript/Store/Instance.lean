import PageScript.Store.Hoist

/-!
# Instances of classes

An instance has a scope of its own inside the scope that declares its class.  Every field and every
method of the class is a slot that the scope binds and the instance has as a member, under the same
name; methods belong to the scope of the instance.
-/

namespace PageScript.Store

def addMember (s : Store) (object : ObjectId) (scope : ScopeId) (name : String) (v : Value) :
    Store :=
  let (slot, s) := s.declare scope name v
  s.addField object name slot

def addMethod (s : Store) (object : ObjectId) (scope : ScopeId) (decl : FunctionDecl) : Store :=
  let (slot, s) := s.declareFunction scope decl
  s.addField object decl.name slot

/-- a new instance of a class that a scope declares, before its initialisation -/
def newInstance (s : Store) (decl : ClassDecl) (home : ScopeId) : (ObjectId × ScopeId) × Store :=
  let (scope, s) := s.newChild home none
  let (object, s) := s.newObject ⟨decl.name, .empty, some scope⟩
  let s := s.modifyScope scope fun sc => { sc with owner := some object }
  let s := decl.fields.foldl (fun s field => s.addMember object scope field.name .empty) s
  let s := decl.methods.foldl (fun s method => s.addMethod object scope method) s
  ((object, scope), s)

end PageScript.Store
