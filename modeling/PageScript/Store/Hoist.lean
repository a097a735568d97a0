import PageScript.Store

/-!
# Declarations before execution

Before a block runs, its declarations take effect in its scope, in the order of the text.  The
blocks of a condition share the scope and are included; the bodies of functions and classes are
not.

A variable keeps a binding that it already has.  A function always gets a new slot, so that a slot
that the caller passed under its name is left alone.  A later function or class of one name
replaces an earlier one, and `option explicit` counts for the whole scope.
-/

namespace PageScript

/-- a variable without a binding gets an empty one -/
def Store.hoistDim (s : Store) (id : ScopeId) (decl : Dim) : Store :=
  match (s.scope id).bindings.find? decl.name with
  | some _ => s
  | none => (s.declare id decl.name .empty).2

/-- a function of a scope, bound in that scope -/
def Store.declareFunction (s : Store) (id : ScopeId) (decl : FunctionDecl) : SlotId × Store :=
  let (function, s) := s.newFunction (.script decl id)
  s.declare id decl.name (.function function)

mutual
def Stmt.hoist (id : ScopeId) (s : Store) : Stmt → Store
  | .dim decl => s.hoistDim id decl
  | .function decl => (s.declareFunction id decl).2
  | .class decl => s.declareClass id decl
  | .optionExplicit _ => s.setExplicit id true
  | .cond _ _ thenBlock elseBlock => elseBlock.hoist id (thenBlock.hoist id s)
  | .assign .. => s
  | .expr .. => s
  | .exit .. => s

def Stmt.hoistAll (id : ScopeId) (s : Store) : List Stmt → Store
  | [] => s
  | stmt :: stmts => Stmt.hoistAll id (stmt.hoist id s) stmts

def Block.hoist (id : ScopeId) (s : Store) : Block → Store
  | ⟨_, statements⟩ => Stmt.hoistAll id s statements
end

end PageScript
