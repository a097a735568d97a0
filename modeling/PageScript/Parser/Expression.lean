import PageScript.Parser
import PageScript.Program

/-!
# Reading expressions

An expression is read level by level: on a level stand the operators of one group, and their
operands are read on the levels of the tighter groups.  So operators of one group associate to the
left, and the tree respects the table of precedence by its making.

Every expression, and every operand of a sign, counts as one level of nesting.  `nested k` holds
the parsers for what stands further in where `k` more levels are allowed.  All of it is written for
any `Reader`, so that the same grammar can be read in other ways than the parser's own.

* `levels`     the operators of a list of groups over a given operand;
* `factorIn`   an operand, with the calls behind it;
* `nested`     expressions within a nesting budget.
-/

namespace PageScript

namespace Parser

open Reader

variable {p : Type → Type} [Reader p]

/-! ## operators -/

/-- an operator of a group that is spelled with the sign taken and, if it fits, the next one -/
def groupSign (g : OperatorGroup) (sign : Char) : Parser BinaryOp := do
  let second ← peek
  let double := match second.kind with
    | .symbol other => g.symbol? (String.ofList [sign, other])
    | _ => none
  match double, g.symbol? (String.singleton sign) with
  | some op, _ =>
    let _ ← next
    return op
  | none, some op => return op
  | none, none => fail (second.unexpected .operator)

/-- takes an operator of a group if one comes next -/
def groupOperator (g : OperatorGroup) : Parser (Option (BinaryOp × Location)) := do
  let token ← peek
  match token.kind with
  | .word word =>
    match g.keyword? word with
    | some op =>
      let _ ← next
      return some (op, token.location)
    | none => return none
  | .symbol sign =>
    if g.startsWith sign then
      let _ ← next
      let op ← groupSign g sign
      return some (op, token.location)
    else return none
  | _ => return none

def groupTail (g : OperatorGroup) (operand : p Expr) :
    p (Option (BinaryOp × Location × Expr)) := do
  match ← groupOperator g with
  | some (op, loc) => return some (op, loc, ← operand)
  | none => return none

/-- operators of one group over operands of tighter groups, folded to the left -/
def leftAssociated (left : Expr) (tails : List (BinaryOp × Location × Expr)) : Expr :=
  tails.foldl (fun left (op, loc, right) => .binary loc op left right) left

/-- the operators of some groups, loosest first; the leftmost operand comes from `first`, all
others from `operand` -/
def levels (groups : List OperatorGroup) (first operand : p Expr) : p Expr :=
  match groups with
  | [] => first
  | g :: groups => do
    let left ← levels groups first operand
    let tails ← repeated (groupTail g (levels groups operand operand))
    return leftAssociated left tails

/-! ## operands -/

/-- the parsers for what stands one level of nesting further in -/
structure Nested (p : Type → Type) where
  expression : p Expr
  /-- the operand of a sign at a location -/
  factor : Location → p Expr
  /-- an expression of which the leftmost operand has been read -/
  continued : Expr → p Expr

/-- a member behind its dot -/
def member : Parser (Option String) := do
  if ← eatSymbol '.' then return some (← expectMember) else return none

def path (first : String) (loc : Location) : p Expr := do
  let members ← repeated (tokens member)
  return .path loc (first :: members)

/-- an argument and the comma behind it; none at a closing parenthesis or the end of the
statement -/
def argument (inner : Nested p) : p (Option Expr) := do
  let token ← peek
  if token.endsStatement || token.isSymbol ')' then return none
  else
    let arg ← inner.expression
    let token ← peek
    if token.isSymbol ',' then
      let _ ← next
      return some arg
    else if token.endsStatement || token.isSymbol ')' then return some arg
    else fail (token.unexpected .argumentEnd)

/-- the arguments of a call, up to a closing parenthesis or the end of the statement -/
def arguments (inner : Nested p) : p (List Expr) := repeated (argument inner)

def argumentList (inner : Nested p) : p (Option (List Expr)) := do
  if ← eatSymbol '(' then
    let args ← arguments inner
    expectSymbol ')'
    return some args
  else return none

def calls (inner : Nested p) (callee : Expr) : p Expr := do
  let argLists ← repeated (argumentList inner)
  return argLists.foldl (fun callee args => .call callee.location callee args) callee

/-- an operand that starts with a word -/
def wordFactor (inner : Nested p) (token : Token) (word : String) : p Expr := do
  let loc := token.location
  if Text.sameWord word "true" then calls inner (.literal loc (.boolean true))
  else if Text.sameWord word "false" then calls inner (.literal loc (.boolean false))
  else if Text.sameWord word "new" then
    let (className, _) ← expectName .className
    return .new loc className
  else if Text.sameWord word "not" then
    return .unary loc .not (← inner.expression)
  else if isReserved word then fail (token.unexpected .expression)
  else calls inner (← path word loc)

/-- an operand: a literal, a path or parentheses with the calls behind them, a new instance, or a
sign or `not` with what it governs -/
def factorIn (inner : Nested p) : p Expr := do
  let token ← next
  let loc := token.location
  match token.kind with
  | .integer n => calls inner (.literal loc (.integer n))
  | .string s => calls inner (.literal loc (.string s))
  | .word word => wordFactor inner token word
  | .symbol '-' => return .unary loc .neg (← inner.factor loc)
  | .symbol '(' =>
    let e ← inner.expression
    expectSymbol ')'
    calls inner (.paren loc e)
  | .symbol _ | .chunk _ | .endOfInput => fail (token.unexpected .expression)

end Parser

/-! ## nesting -/

/-- what stands further in where `k` more levels of nesting are allowed -/
def Reader.nested {p : Type → Type} [Reader p] : Nat → Parser.Nested p
  | 0 =>
    { expression := refuse Parser.here
      factor := fun loc => refuse (pure loc)
      continued := fun seed => refuse (pure seed.location) }
  | k + 1 =>
    let factor := Parser.factorIn (nested k)
    { expression := deepen Parser.here (Parser.levels precedence factor factor)
      factor := fun loc => deepen (pure loc) factor
      continued := fun seed =>
        deepen (pure seed.location) (Parser.levels precedence (pure seed) factor) }

/-- what stands further in, for the parser that runs -/
def Parser.nested (k : Nat) : Nested Parser := Reader.nested k

end PageScript
