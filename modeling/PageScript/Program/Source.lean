import PageScript.Program
import PageScript.Token

/-!
# Programs as source text

`Block.source` writes a program so that reading the text gives the same tree again, up to
locations.  Only the parentheses that are nodes of the tree are written, one statement stands on a
line, and a block is indented by four spaces a level.

A condition whose other block holds nothing but a condition is written with `elseif`.  A statement
that writes a text with a line break is written as a chunk outside code, since a string literal
cannot hold one.
-/

namespace PageScript

/-! ## expressions -/

def Literal.source : Literal → String
  | .integer n => Text.decimal n
  | .string s => Text.quoted s
  | .boolean true => "true"
  | .boolean false => "false"

mutual
def Expr.source : Expr → String
  | .literal _ value => value.source
  | .path _ names => dotted names
  | .binary _ op left right => left.source ++ " " ++ op.symbol ++ " " ++ right.source
  | .unary _ .neg operand => "-" ++ operand.source
  | .unary _ .not operand => "not " ++ operand.source
  | .call _ callee args => callee.source ++ "(" ++ ", ".intercalate (Expr.sources args) ++ ")"
  | .new _ className => "new " ++ className
  | .paren _ inner => "(" ++ inner.source ++ ")"

def Expr.sources : List Expr → List String
  | [] => []
  | e :: es => e.source :: Expr.sources es
end

theorem Expr.sources_eq_map (es : List Expr) : Expr.sources es = es.map Expr.source := by
  induction es with
  | nil => rfl
  | cons e es ih => simp [Expr.sources, ih]

/-! ## statements -/

def indent (depth : Nat) : String := String.ofList (List.replicate (4 * depth) ' ')

def line (depth : Nat) (text : String) : String := indent depth ++ text ++ "\n"

/-- the text opens a code section -/
def opensCode : List Char → Bool
  | [] => false
  | '<' :: '%' :: _ => true
  | _ :: cs => opensCode cs

/-- the text has a line break and can stand outside code -/
def needsChunk (text : String) : Bool :=
  text.toList.any (fun c => c == '\n' || c == '\r') && !opensCode text.toList

/-- the text that a statement writes, if it has to be written as a chunk -/
def chunkText? : Expr → Option String
  | .call _ (.path _ [object, method]) [.literal _ (.string text)] =>
    if Text.sameWord object "response" && Text.sameWord method "write" && needsChunk text
    then some text else none
  | _ => none

/-- an expression as a statement: a call of a path goes without parentheses -/
def Expr.statement : Expr → String
  | .call _ (.path _ names) [] => dotted names
  | .call _ (.path _ names) args => dotted names ++ " " ++ ", ".intercalate (Expr.sources args)
  | e => "call " ++ e.source

def Param.source (p : Param) : String :=
  match p.byRef with
  | some true => "byref " ++ p.name
  | some false => "byval " ++ p.name
  | none => p.name

def Dim.source (d : Dim) : String := "dim " ++ d.name

def headLine (kind : FunctionKind) (name : String) (params : List Param) : String :=
  kind.keyword ++ " " ++ name ++ "(" ++ ", ".intercalate (params.map Param.source) ++ ")"

mutual
def Stmt.sourceAt (depth : Nat) : Stmt → String
  | .function decl => decl.sourceAt depth
  | .class decl => decl.sourceAt depth
  | .dim decl => line depth decl.source
  | .assign _ target value => line depth (target.source ++ " = " ++ value.source)
  | .cond _ condition thenBlock elseBlock =>
    line depth ("if " ++ condition.source ++ " then") ++ thenBlock.sourceAt (depth + 1)
      ++ elseBlock.elseAt depth ++ line depth "end if"
  | .expr _ e =>
    match chunkText? e with
    | some text => line depth ("%>" ++ text ++ "<%")
    | none => line depth e.statement
  | .optionExplicit _ => line depth "option explicit"
  | .exit _ kind => line depth ("exit " ++ kind.keyword)

def Stmt.sourcesAt (depth : Nat) : List Stmt → String
  | [] => ""
  | s :: ss => s.sourceAt depth ++ Stmt.sourcesAt depth ss

def Block.sourceAt (depth : Nat) : Block → String
  | ⟨_, statements⟩ => Stmt.sourcesAt depth statements

/-- the block for the case that a condition fails -/
def Block.elseAt (depth : Nat) : Block → String
  | ⟨_, []⟩ => ""
  | ⟨_, [.cond _ condition thenBlock elseBlock]⟩ =>
    line depth ("elseif " ++ condition.source ++ " then") ++ thenBlock.sourceAt (depth + 1)
      ++ elseBlock.elseAt depth
  | ⟨_, s :: ss⟩ => line depth "else" ++ s.sourceAt (depth + 1) ++ Stmt.sourcesAt (depth + 1) ss

def FunctionDecl.sourceAt (depth : Nat) : FunctionDecl → String
  | ⟨_, kind, name, params, body⟩ =>
    line depth (headLine kind name params) ++ body.sourceAt (depth + 1)
      ++ line depth ("end " ++ kind.keyword)

def FunctionDecl.sourcesAt (depth : Nat) : List FunctionDecl → String
  | [] => ""
  | d :: ds => d.sourceAt depth ++ FunctionDecl.sourcesAt depth ds

def ClassDecl.sourceAt (depth : Nat) : ClassDecl → String
  | ⟨_, name, fields, methods⟩ =>
    line depth ("class " ++ name)
      ++ String.join (fields.map fun f => line (depth + 1) f.source)
      ++ FunctionDecl.sourcesAt (depth + 1) methods ++ line depth "end class"
end

def Stmt.source (s : Stmt) : String := s.sourceAt 0
def Block.source (b : Block) : String := b.sourceAt 0

end PageScript
