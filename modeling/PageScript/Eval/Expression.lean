import PageScript.Eval.Path
import PageScript.Program.Source

/-!
# Evaluating expressions

Operands, and arguments of a call, are evaluated from left to right.  A path as an argument passes
the slot at its end; every other expression passes a new slot with its value, parentheses included.

What is held: the value of the left operand while the right one is evaluated, and the slots of the
arguments to the left while the others are evaluated.
-/

namespace PageScript

def Literal.value : Literal → Value
  | .integer n => .integer n
  | .string s => .string s
  | .boolean b => .boolean b

namespace Eval

open Runner

variable {m : Type → Type} [Runner m]

/-- the slot that an argument passes; `value` evaluates what is not a path -/
def argument (invoke : Invoke m) (scope : ScopeId) (e : Expr) (value : m Value) : m SlotId :=
  match e with
  | .path loc names => pathSlot invoke scope loc names
  | _ => do newSlot (← value)

mutual
/-- the value of an expression in a scope -/
def eval (invoke : Invoke m) (scope : ScopeId) : Expr → m Value
  | .literal _ value => return value.value
  | .path loc names => do getSlot (← pathSlot invoke scope loc names)
  | .binary loc op left right => do
    let a ← eval invoke scope left
    let b ← holding a.refs (eval invoke scope right)
    check loc (op.apply a b)
  | .unary loc op operand => do
    let a ← eval invoke scope operand
    check loc (op.apply a)
  | .call loc e args => do
    let f ← callee invoke scope e (eval invoke scope e)
    let slots ← arguments invoke scope args
    getSlot (← passing f args (call invoke f slots loc))
  | .new loc className => instantiate invoke scope loc className
  | .paren _ inner => eval invoke scope inner

def arguments (invoke : Invoke m) (scope : ScopeId) : List Expr → m (List SlotId)
  | [] => return []
  | e :: es => do
    let slot ← argument invoke scope e (eval invoke scope e)
    let slots ← beside e slot (arguments invoke scope es)
    return slot :: slots
end

/-- the slot that an expression stands for: a variable's own, a call's result, or a new one -/
def evalSlot (invoke : Invoke m) (scope : ScopeId) : Expr → m SlotId
  | .path loc names => pathSlot invoke scope loc names
  | .call loc e args => do
    let f ← callee invoke scope e (eval invoke scope e)
    let slots ← arguments invoke scope args
    passing f args (call invoke f slots loc)
  | e => do newSlot (← eval invoke scope e)

end Eval

end PageScript
