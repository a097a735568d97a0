/-!
# Outcomes of a tool

What a tool leaves behind: an exit code and the texts of its two outputs.
-/

namespace PageScript.CommandLine

structure Outcome where
  code : UInt8
  output : String
  errors : String
deriving DecidableEq

def lines (ls : List String) : String := String.join (ls.map fun l => l ++ "\n")

namespace Outcome

/-- success, with a text for the reader of the errors -/
def noted (notes : List String) : Outcome := ⟨0, "", lines notes⟩

/-- success, with a text on the output -/
def printed (text : String) : Outcome := ⟨0, text, ""⟩

end Outcome

end PageScript.CommandLine
