import PageScript.RuntimeError
import PageScript.Text.Blank
import PageScript.Text.Fold

/-!
# Values as integers and as truth values

* `Value.toInteger?`   the integer that an operator sees: empty is zero, true is minus one, and a
                       string counts if it is the text of an integer between blanks;
* `Value.truth`        what a condition sees: a string may also be one of the two truth words.
-/

namespace PageScript.Value

/-- the integer that the text of a string denotes -/
def stringInteger? (s : String) : Option Int64 := Text.readInteger (Text.trim s.toList)

def toInteger? : Value → Option Int64
  | .empty => some 0
  | .integer n => some n
  | .boolean true => some (-1)
  | .boolean false => some 0
  | .string s => stringInteger? s
  | .object _ => none
  | .function _ => none

/-- the truth value that a string spells, letter case and blanks around it aside -/
def truthWord? (s : String) : Option Bool :=
  let word := Text.fold (String.ofList (Text.trim s.toList))
  if word = "true" then some true else if word = "false" then some false else none

def truth (v : Value) : Except RuntimeFault Bool :=
  match v with
  | .boolean b => .ok b
  | .integer n => .ok (n != 0)
  | .empty => .ok false
  | .string s =>
    match truthWord? s, stringInteger? s with
    | some b, _ => .ok b
    | none, some n => .ok (n != 0)
    | none, none => .error (.conditionTypeMismatch v.type)
  | .object _ => .error (.conditionTypeMismatch v.type)
  | .function _ => .error (.conditionTypeMismatch v.type)

end PageScript.Value
