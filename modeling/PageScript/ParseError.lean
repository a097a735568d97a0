import PageScript.Token

/-!
# Faults of a text

Why a text is not a script, and where.  `Expectation` names what the reader wanted instead of the
token that it found; the wording of every report is here and nowhere else.
-/

namespace PageScript

/-- what a reader wants next -/
inductive Expectation
  | statement
  | endOfStatement
  | endOfInput
  | expression
  | operator
  | argumentEnd
  | member
  | classMember
  | functionName
  | parameterName
  | className
  | variableName
  | functionOrSub
  | endIf
  | keyword (word : String)
  | symbol (sign : Char)
deriving DecidableEq

def Expectation.text : Expectation → String
  | .statement => "语句"
  | .endOfStatement => "语句结尾"
  | .endOfInput => "输入结尾"
  | .expression => "表达式"
  | .operator => "运算符"
  | .argumentEnd => "',' 或 ')'"
  | .member => "成员名"
  | .classMember => "类成员或 'end class'"
  | .functionName => "函数名"
  | .parameterName => "参数名"
  | .className => "类名"
  | .variableName => "变量名"
  | .functionOrSub => "'function' 或 'sub'"
  | .endIf => "'end if'"
  | .keyword word => "'" ++ word ++ "'"
  | .symbol sign => "'" ++ String.singleton sign ++ "'"

inductive ParseFault
  | unexpectedToken (found : TokenKind) (expected : Expectation)
  | unexpectedEnd (expected : Expectation)
  /-- `end` with the word `found`, where the block asks for another one -/
  | mismatchedEnd (expected found : String)
  /-- several arguments of a statement call in one pair of parentheses -/
  | parenthesizedSubCall
  | unterminatedString
  | integerOverflow (literal : String)
  | nestingTooDeep (limit : Nat)
deriving DecidableEq

def ParseFault.message : ParseFault → String
  | .unexpectedToken found expected => "意外的符号 " ++ found.text ++ "，期望 " ++ expected.text
  | .unexpectedEnd expected => "意外的输入结尾，期望 " ++ expected.text
  | .mismatchedEnd expected found => "'end " ++ found ++ "' 与 'end " ++ expected ++ "' 不匹配"
  | .parenthesizedSubCall => "调用 Sub 时不能用括号包围多个参数"
  | .unterminatedString => "字符串字面量未闭合"
  | .integerOverflow literal => "整数字面量 " ++ literal ++ " 超出范围"
  | .nestingTooDeep limit => "嵌套层数超过上限 " ++ toString limit

structure ParseError where
  location : Location
  fault : ParseFault
deriving DecidableEq

def ParseError.message (e : ParseError) : String := e.fault.message

/-- the report with its location in front -/
def ParseError.text (e : ParseError) : String := e.location.text ++ ": " ++ e.message

/-- a token that does not fit; the end of the input is a fault of its own -/
def Token.unexpected (t : Token) (expected : Expectation) : ParseError :=
  ⟨t.location, if t.isEnd then .unexpectedEnd expected else .unexpectedToken t.kind expected⟩

end PageScript
