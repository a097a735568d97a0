import PageScript.Value.Comparison

/-!
# What the operators do

`BinaryOp.apply` and `UnaryOp.apply` give every operator its meaning.  Two strings are joined by
`+`; `&` joins the texts of any two values that are not references; the logical operators work on
truth values as such, and otherwise bit by bit on integers.
-/

namespace PageScript

namespace Value

/-- an arithmetic operator on the integers of its operands -/
def arithmetic (op : BinaryOp) (compute : Int → Int → Except RuntimeFault Value)
    (left right : Value) : Except RuntimeFault Value := do
  let (a, b) ← integers op left right
  compute a b

def add (left right : Value) : Except RuntimeFault Value :=
  match left, right with
  | .string a, .string b => .ok (.string (a ++ b))
  | _, _ => arithmetic .add (fun a b => checked (a + b)) left right

def concat (left right : Value) : Except RuntimeFault Value :=
  match left.plainText?, right.plainText? with
  | some a, some b => .ok (.string (a ++ b))
  | _, _ => .error (.typeMismatch .concat left.type right.type)

/-- a logical operator: on truth values, or on the bits of integers -/
def logical (op : BinaryOp) (truths : Bool → Bool → Bool) (bits : Int64 → Int64 → Int64)
    (left right : Value) : Except RuntimeFault Value :=
  match left, right with
  | .boolean a, .boolean b => .ok (.boolean (truths a b))
  | _, _ =>
    match left.toInteger?, right.toInteger? with
    | some a, some b => .ok (.integer (bits a b))
    | _, _ => .error (.typeMismatch op left.type right.type)

def complement (v : Value) : Except RuntimeFault Value :=
  match v with
  | .boolean b => .ok (.boolean !b)
  | _ =>
    match v.toInteger? with
    | some n => .ok (.integer (~~~n))
    | none => .error (.unaryTypeMismatch .not v.type)

end Value

def BinaryOp.apply (op : BinaryOp) (left right : Value) : Except RuntimeFault Value :=
  match op with
  | .xor => Value.logical op (· != ·) (· ^^^ ·) left right
  | .or => Value.logical op (· || ·) (· ||| ·) left right
  | .and => Value.logical op (· && ·) (· &&& ·) left right
  | .eq => Value.comparison op Ordering.isEq left right
  | .notEq => Value.comparison op Ordering.isNe left right
  | .less => Value.comparison op Ordering.isLT left right
  | .greater => Value.comparison op Ordering.isGT left right
  | .lessEq => Value.comparison op Ordering.isLE left right
  | .greaterEq => Value.comparison op Ordering.isGE left right
  | .is => Value.identical left right
  | .concat => Value.concat left right
  | .add => Value.add left right
  | .sub => Value.arithmetic op (fun a b => Value.checked (a - b)) left right
  | .mod => Value.arithmetic op Value.remainder left right
  | .intDiv => Value.arithmetic op Value.quotient left right
  | .mul => Value.arithmetic op (fun a b => Value.checked (a * b)) left right
  | .div => Value.arithmetic op Value.quotient left right
  | .pow => Value.arithmetic op Value.power left right

def UnaryOp.apply (op : UnaryOp) (operand : Value) : Except RuntimeFault Value :=
  match op with
  | .neg => Value.negate operand
  | .not => Value.complement operand

end PageScript
