import PageScript.Program.OfText
import PageScript.RuntimeError

/-!
# Scripts

A script is a named program.  What can go wrong with one is a fault of its text or a fault of its
run.
-/

namespace PageScript

structure Script where
  name : String
  block : Block
deriving DecidableEq

inductive ScriptError
  | parse (e : ParseError)
  | runtime (e : RuntimeError)
deriving DecidableEq

namespace ScriptError

def location : ScriptError → Location
  | .parse e => e.location
  | .runtime e => e.location

def message : ScriptError → String
  | .parse e => e.message
  | .runtime e => e.message

def detail : ScriptError → String
  | .parse e => e.text
  | .runtime e => e.text

/-- the report with its stage and its location in front -/
def text : ScriptError → String
  | .parse e => "语法错误: " ++ e.text
  | .runtime e => "运行时错误: " ++ e.text

end ScriptError

def Script.ofText (name : String) (mode : Mode) (text : String) : Except ScriptError Script :=
  match Block.ofText name mode text with
  | .ok block => .ok ⟨name, block⟩
  | .error e => .error (.parse e)

end PageScript
