import PageScript.Parser.Expression

/-!
# Reading statements

A block is a sequence of statements up to the end of the input or a word that closes or divides
the block around it (`end`, `else`, `elseif`).  A block counts as one level of nesting.

A chunk of plain text is a statement that writes it, and an `=` at the start of a code section
writes the value of the expression behind it.

A statement that starts with a path is an assignment if `=` follows the path, or follows one pair
of parentheses behind it.  Otherwise it is a call without parentheses around its arguments, so
parentheses there belong to the first argument.
-/

namespace PageScript

namespace Parser

open Reader

variable {p : Type → Type} [Reader p]

/-! ## statements that call -/

def callStatement (loc : Location) (callee : Expr) (args : List Expr) : Stmt :=
  .expr loc (.call loc callee args)

/-- the statement that writes a value to the page -/
def writeStatement (loc : Location) (value : Expr) : Stmt :=
  callStatement loc (.path loc ["response", "write"]) [value]

/-- an expression as a call; what is not yet a call is called without arguments -/
def calledStatement (loc : Location) : Expr → Stmt
  | .call l callee args => .expr loc (.call l callee args)
  | callee => callStatement loc callee []

/-- `call` and an expression -/
def explicitCall (inner : Nested p) : p Stmt := do
  let _ ← next
  let loc := (← peek).location
  return calledStatement loc (← inner.expression)

/-- a call whose first argument has been read -/
def callFromFirst (inner : Nested p) (loc : Location) (target first : Expr) : p Stmt := do
  if ← eatSymbol ',' then return callStatement loc target (first :: (← arguments inner))
  else return callStatement loc target [first]

/-- a call whose first argument starts with the parentheses that have just been read -/
def callFromSeed (inner : Nested p) (loc : Location) (target seed : Expr) : p Stmt := do
  let first ← if ← peekIsSymbol ',' then pure seed else inner.continued seed
  callFromFirst inner loc target first

/-- what follows the parentheses behind a path, at the end of the statement -/
def closedCall (loc opening : Location) (target : Expr) : List Expr → Parser Stmt
  | [] => return callStatement loc target []
  | [arg] => return callStatement loc target [.paren opening arg]
  | _ => fail ⟨opening, .parenthesizedSubCall⟩

/-- a statement that starts with a path, behind the parentheses that follow the path -/
def afterArguments (inner : Nested p) (loc opening : Location) (target : Expr) (args : List Expr) :
    p Stmt := do
  let token ← peek
  if token.isSymbol '=' then
    let _ ← next
    return .assign token.location (.call loc target args) (← inner.expression)
  else if token.endsStatement then closedCall loc opening target args
  else match args with
    | [arg] => callFromSeed inner loc target (.paren opening arg)
    | _ =>
      if token.isSymbol ',' then fail ⟨opening, .parenthesizedSubCall⟩
      else fail (token.unexpected .endOfStatement)

/-- a statement that starts with a path, behind the path -/
def afterPath (inner : Nested p) (loc : Location) (target : Expr) : p Stmt := do
  let token ← peek
  if token.isSymbol '=' then
    let _ ← next
    return .assign token.location target (← inner.expression)
  else if token.isSymbol '(' then
    let _ ← next
    let args ← arguments inner
    expectSymbol ')'
    afterArguments inner loc token.location target args
  else return callStatement loc target (← arguments inner)

/-- an assignment, or a call without parentheses -/
def assignmentOrCall (inner : Nested p) : p Stmt := do
  let (first, loc) ← expectName .statement
  let target ← path first loc
  afterPath inner loc target

/-! ## declarations -/

/-- a name behind a comma -/
def anotherName : Parser (Option Dim) := do
  if ← eatSymbol ',' then
    let (name, loc) ← expectName .variableName
    return some ⟨loc, name⟩
  else return none

def names : p (List Dim) := do
  let (name, loc) ← expectName .variableName
  let others ← repeated (tokens anotherName)
  return ⟨loc, name⟩ :: others

/-- how a parameter is passed, where that is written -/
def passing : Parser (Option Bool) := do
  if ← eatKeyword "byref" then return some true
  else if ← eatKeyword "byval" then return some false
  else return none

def param : Parser Param := do
  let byRef ← passing
  let (name, loc) ← expectName .parameterName
  return ⟨loc, name, byRef⟩

/-- a parameter and the comma behind it; none at the closing parenthesis -/
def listedParam : Parser (Option Param) := do
  if ← peekIsSymbol ')' then return none
  else
    let p ← param
    if !(← peekIsSymbol ')') then expectSymbol ','
    return some p

def params : p (List Param) := do
  if ← eatSymbol '(' then
    let ps ← repeated (tokens listedParam)
    expectSymbol ')'
    return ps
  else return []

/-- a function or sub, given the parser of its body -/
def function (block : p Block) (kind : FunctionKind) : p FunctionDecl := do
  let keyword ← next
  let (name, _) ← expectName .functionName
  let ps ← params
  endOfStatement
  let body ← block
  expectEnd kind.keyword
  endOfStatement
  return ⟨keyword.location, kind, name, ps, body⟩

/-- a member of a class -/
inductive Member
  | field (decl : Dim)
  | method (decl : FunctionDecl)

def Member.field? : Member → Option Dim
  | .field decl => some decl
  | .method _ => none

def Member.method? : Member → Option FunctionDecl
  | .field _ => none
  | .method decl => some decl

def fields : p (List Member) := do
  let ds ← names
  endOfStatement
  return ds.map .field

/-- the next members of a class; none before its `end` -/
def members (block : p Block) : p (Option (List Member)) := do
  let token ← peek
  if token.isSymbol ':' then
    let _ ← next
    return some []
  else if token.isKeyword "end" then return none
  else if token.isKeyword "dim" then
    let _ ← next
    return some (← fields)
  else if token.isKeyword "function" then return some [.method (← function block .function)]
  else if token.isKeyword "sub" then return some [.method (← function block .sub)]
  else if token.isKeyword "public" || token.isKeyword "private" then
    let _ ← next
    if (← peekIsKeyword "function") || (← peekIsKeyword "sub") then return some []
    else return some (← fields)
  else fail (token.unexpected .classMember)

def classDecl (block : p Block) : p ClassDecl := do
  let keyword ← next
  let (name, _) ← expectName .className
  endOfStatement
  let ms := (← repeated (members block)).flatten
  expectEnd "class"
  endOfStatement
  return ⟨keyword.location, name, ms.filterMap Member.field?, ms.filterMap Member.method?⟩

/-! ## conditions -/

/-- a condition, `then` and a block -/
def branch (inner : Nested p) (block : p Block) : p (Expr × Block) := do
  let condition ← inner.expression
  expectKeyword "then"
  return (condition, ← block)

def elseIf (inner : Nested p) (block : p Block) :
    p (Option (Location × Expr × Block)) := do
  let token ← peek
  if token.isKeyword "elseif" then
    let _ ← next
    return some (token.location, ← branch inner block)
  else return none

def elseIfs (inner : Nested p) (block : p Block) : p (List (Location × Expr × Block)) :=
  repeated (elseIf inner block)

/-- the last part of a condition: a block behind `else`, or nothing -/
def lastBranch (block : p Block) : p Block := do
  let token ← peek
  if token.isKeyword "else" then
    let _ ← next
    let b ← block
    expectEnd "if"
    endOfStatement
    return b
  else if token.isKeyword "end" then
    expectEnd "if"
    endOfStatement
    return ⟨token.location, []⟩
  else fail (token.unexpected .endIf)

/-- a chain of conditions as blocks within blocks -/
def chained (chain : List (Location × Expr × Block)) (last : Block) : Block :=
  chain.foldr (fun (loc, condition, thenBlock) elseBlock =>
    ⟨loc, [.cond loc condition thenBlock elseBlock]⟩) last

def condition (inner : Nested p) (block : p Block) (loc : Location) : p Stmt := do
  let (condition, thenBlock) ← branch inner block
  let chain ← elseIfs inner block
  let last ← lastBranch block
  return .cond loc condition thenBlock (chained chain last)

/-! ## blocks -/

/-- a chunk that has been looked at, and the expression that an `=` behind it writes -/
def chunkStatements (inner : Nested p) (loc : Location) (text : String) : p (List Stmt) := do
  let _ ← next
  let written := if text.isEmpty then [] else [writeStatement loc (.literal loc (.string text))]
  let token ← peek
  if token.isSymbol '=' then
    let _ ← next
    let value ← inner.expression
    endOfStatement
    return written ++ [writeStatement token.location value]
  else return written

/-- which function an `exit` leaves -/
def exitKind : Parser FunctionKind := do
  if ← eatKeyword "function" then return .function
  else if ← eatKeyword "sub" then return .sub
  else fail ((← next).unexpected .functionOrSub)

/-- a statement and its end -/
def ended (statement : p Stmt) : p (Option (List Stmt)) := do
  let s ← statement
  endOfStatement
  return some [s]

/-- the statements that a word starts; none for a word that ends the block -/
def wordStatements (inner : Nested p) (block : p Block) (token : Token) (word : String) :
    p (Option (List Stmt)) :=
  match Text.fold word with
  | "end" => return none
  | "else" => return none
  | "elseif" => return none
  | "function" => return some [.function (← function block .function)]
  | "sub" => return some [.function (← function block .sub)]
  | "class" => return some [.class (← classDecl block)]
  | "dim" => do
    let _ ← next
    let ds ← names
    endOfStatement
    return some (ds.map .dim)
  | "if" => do
    let _ ← next
    return some [← condition inner block token.location]
  | "set" => do
    let _ ← next
    return some []
  | "call" => ended (explicitCall inner)
  | "option" => ended do
    let _ ← next
    expectKeyword "explicit"
    return .optionExplicit token.location
  | "exit" => ended do
    let _ ← next
    return .exit token.location (← exitKind)
  | _ => ended (assignmentOrCall inner)

/-- the next statements of a block; none at its end -/
def someStatements (inner : Nested p) (block : p Block) : p (Option (List Stmt)) := do
  let token ← peek
  match token.kind with
  | .endOfInput => return none
  | .symbol ':' =>
    let _ ← next
    return some []
  | .chunk text => return some (← chunkStatements inner token.location text)
  | .word word => wordStatements inner block token word
  | _ => fail (token.unexpected .statement)

end Parser

/-- a block where `k` levels of nesting are allowed, and what stands in it -/
def Reader.block {p : Type → Type} [Reader p] : Nat → p Block
  | 0 => refuse Parser.here
  | k + 1 => do
    let token ← Parser.peek
    let statements ← deepen (pure token.location)
      (repeated (Parser.someStatements (nested k) (block k)))
    return ⟨token.location, statements.flatten⟩

/-- a block, for the parser that runs -/
def Parser.block (k : Nat) : Parser Block := Reader.block k

theorem Parser.block_succ (k : Nat) :
    block (k + 1) = (peek >>= fun token =>
      collect (someStatements (nested k) (block k)) >>= fun statements =>
        pure ⟨token.location, statements.flatten⟩) := rfl

end PageScript
