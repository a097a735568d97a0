import PageScript.Program.Source

/-!
# Programs as nested lists

A compact form for comparing programs by structure: every node is a list with the node's name or
operator in front, and no location occurs in it.
-/

namespace PageScript

/-- items in parentheses, with single spaces between them -/
def listed (items : List String) : String := "(" ++ " ".intercalate items ++ ")"

mutual
def Expr.sexpr : Expr → String
  | .literal _ value => value.source
  | .path _ names => dotted names
  | .binary _ op left right => listed [op.symbol, left.sexpr, right.sexpr]
  | .unary _ op operand => listed [op.symbol, operand.sexpr]
  | .call _ callee args => listed ("call" :: callee.sexpr :: Expr.sexprs args)
  | .new _ className => listed ["new", className]
  | .paren _ inner => listed ["paren", inner.sexpr]

def Expr.sexprs : List Expr → List String
  | [] => []
  | e :: es => e.sexpr :: Expr.sexprs es
end

def Dim.sexpr (d : Dim) : String := listed ["dim", d.name]

mutual
def Stmt.sexpr : Stmt → String
  | .function decl => decl.sexpr
  | .class decl => decl.sexpr
  | .dim decl => decl.sexpr
  | .assign _ target value => listed ["assign", target.sexpr, value.sexpr]
  | .cond _ condition thenBlock elseBlock =>
    listed ["if", condition.sexpr, thenBlock.sexpr, elseBlock.sexpr]
  | .expr _ e => e.sexpr
  | .optionExplicit _ => listed ["option", "explicit"]
  | .exit _ kind => listed ["exit", kind.keyword]

def Stmt.sexprs : List Stmt → List String
  | [] => []
  | s :: ss => s.sexpr :: Stmt.sexprs ss

def Block.sexpr : Block → String
  | ⟨_, statements⟩ => listed ("block" :: Stmt.sexprs statements)

def FunctionDecl.sexpr : FunctionDecl → String
  | ⟨_, kind, name, params, body⟩ =>
    listed [kind.keyword, name, listed (params.map Param.source), body.sexpr]

def FunctionDecl.sexprs : List FunctionDecl → List String
  | [] => []
  | d :: ds => d.sexpr :: FunctionDecl.sexprs ds

def ClassDecl.sexpr : ClassDecl → String
  | ⟨_, name, fields, methods⟩ =>
    listed ("class" :: name :: fields.map Dim.sexpr ++ FunctionDecl.sexprs methods)
end

end PageScript
