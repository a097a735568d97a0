import PageScript.Value.Arithmetic

/-!
# Comparison

Strings are ordered by their characters.  An empty value is the empty string beside a string, and
zero beside a number.  Beside any string every number is the smaller one.  References are not
ordered: `is` compares them, with each other and with the empty value.
-/

namespace PageScript.Value

def compareText (a b : String) : Ordering := if a < b then .lt else if a = b then .eq else .gt

/-- the order of two values that are not references -/
def order (op : BinaryOp) (left right : Value) : Except RuntimeFault Ordering :=
  if left.isReference || right.isReference then .error (.typeMismatch op left.type right.type)
  else match left, right with
    | .string a, .string b => .ok (compareText a b)
    | .string a, .empty => .ok (compareText a "")
    | .empty, .string b => .ok (compareText "" b)
    | .string _, _ => .ok .gt
    | _, .string _ => .ok .lt
    | _, _ => do
      let (a, b) ← integers op left right
      return compare a b

/-- a comparison: whether the order of the operands is one of those that the operator accepts -/
def comparison (op : BinaryOp) (accepts : Ordering → Bool) (left right : Value) :
    Except RuntimeFault Value := do
  return .boolean (accepts (← order op left right))

/-- whether two references are the same one -/
def identical (left right : Value) : Except RuntimeFault Value :=
  match left, right with
  | .object a, .object b => .ok (.boolean (a == b))
  | .function a, .function b => .ok (.boolean (a == b))
  | .empty, .empty => .ok (.boolean true)
  | .object _, .empty => .ok (.boolean false)
  | .function _, .empty => .ok (.boolean false)
  | .empty, .object _ => .ok (.boolean false)
  | .empty, .function _ => .ok (.boolean false)
  | _, _ => .error (.typeMismatch .is left.type right.type)

end PageScript.Value
