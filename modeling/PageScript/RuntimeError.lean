import PageScript.Location
import PageScript.Operator
import PageScript.Value

/-!
# Faults of a run

Why a run stops, and at which node of the program.  Scopes, operators and host functions report a
fault without a location; the evaluator adds the location of the node it stands at.
-/

namespace PageScript

inductive RuntimeFault
  /-- a name without a binding, where every name has to be declared -/
  | undeclared (name : String)
  /-- the scope that a function or a scope belongs to is gone -/
  | scopeDropped
  | notCallable (name : String)
  | arityMismatch (name : String) (expected actual : Nat)
  | typeMismatch (op : BinaryOp) (left right : ValueType)
  | unaryTypeMismatch (op : UnaryOp) (operand : ValueType)
  | conditionTypeMismatch (operand : ValueType)
  | divisionByZero
  | overflow
  | notAnObject (name : String)
  | unknownMember (member : String)
  | unknownClass (name : String)
  | invalidAssignmentTarget
  | callDepthExceeded (limit : Nat)
  | stepLimitExceeded (limit : Nat)
  /-- a host function refused its arguments -/
  | host (message : String)
deriving DecidableEq

/-- the wording of a type mismatch with one operand -/
def unaryMismatchText (op : String) (operand : ValueType) : String :=
  "类型不匹配: '" ++ op ++ "' 不能作用于 " ++ operand.name

def RuntimeFault.message : RuntimeFault → String
  | .undeclared name => "变量 '" ++ name ++ "' 未声明"
  | .scopeDropped => "外层作用域已释放"
  | .notCallable name => "'" ++ name ++ "' 不是函数或过程"
  | .arityMismatch name expected actual =>
    "'" ++ name ++ "' 需要 " ++ toString expected ++ " 个参数，实际传入 " ++ toString actual ++ " 个"
  | .typeMismatch op left right =>
    "类型不匹配: '" ++ op.symbol ++ "' 不能作用于 " ++ left.name ++ " 和 " ++ right.name
  | .unaryTypeMismatch op operand => unaryMismatchText op.symbol operand
  | .conditionTypeMismatch operand => unaryMismatchText "if" operand
  | .divisionByZero => "除数为零"
  | .overflow => "整数溢出"
  | .notAnObject name => "'" ++ name ++ "' 不是对象"
  | .unknownMember member => "对象不支持属性或方法 '" ++ member ++ "'"
  | .unknownClass name => "未定义的类 '" ++ name ++ "'"
  | .invalidAssignmentTarget => "无效的赋值目标"
  | .callDepthExceeded limit => "超出最大调用深度 " ++ toString limit
  | .stepLimitExceeded limit => "超出执行步数上限 " ++ toString limit
  | .host message => message

structure RuntimeError where
  location : Location
  fault : RuntimeFault
deriving DecidableEq

def RuntimeError.message (e : RuntimeError) : String := e.fault.message

def RuntimeError.text (e : RuntimeError) : String := e.location.text ++ ": " ++ e.message

end PageScript
