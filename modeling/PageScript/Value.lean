import PageScript.Text.Integer

/-!
# Values

What a variable can hold.  Objects and functions are references: two of them are equal when they
are the same one.  What a reference stands for is in the store of the running session.
-/

namespace PageScript

structure ObjectId where
  index : Nat
deriving DecidableEq, Inhabited

structure FunctionId where
  index : Nat
deriving DecidableEq, Inhabited

inductive Value
  /-- the value of a variable that was never assigned -/
  | empty
  | integer (n : Int64)
  | string (s : String)
  | boolean (b : Bool)
  | object (id : ObjectId)
  | function (id : FunctionId)
deriving DecidableEq, Inhabited

inductive ValueType
  | empty | integer | string | boolean | object | function
deriving DecidableEq

def ValueType.name : ValueType → String
  | .empty => "Empty"
  | .integer => "Integer"
  | .string => "String"
  | .boolean => "Boolean"
  | .object => "Object"
  | .function => "Function"

namespace Value

def type : Value → ValueType
  | .empty => .empty
  | .integer _ => .integer
  | .string _ => .string
  | .boolean _ => .boolean
  | .object _ => .object
  | .function _ => .function

/-- the value refers to something in the store -/
def isReference : Value → Bool
  | .object _ => true
  | .function _ => true
  | _ => false

/-- the text of a value that is not a reference -/
def plainText? : Value → Option String
  | .empty => some ""
  | .integer n => some (Text.decimal n)
  | .string s => some s
  | .boolean true => some "True"
  | .boolean false => some "False"
  | .object _ => none
  | .function _ => none

theorem plainText?_isSome (v : Value) : v.plainText?.isSome = !v.isReference := by
  cases v with
  | boolean b => cases b <;> rfl
  | _ => rfl

end Value

end PageScript
