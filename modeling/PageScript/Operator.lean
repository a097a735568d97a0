import PageScript.Text.Fold

/-!
# Operators

The binary operators with their spelling and their precedence.  `precedence` lists the groups
from the loosest to the tightest; operators of one group bind equally and associate to the left.

* `BinaryOp.symbol`             how an operator is written;
* `OperatorGroup.keyword?`      the operator that a word names, in any letter case;
* `OperatorGroup.symbol?`       the operator that a sign names exactly;
* `OperatorGroup.startsWith`    some operator of the group starts with a character;
* `precedence_complete`         every operator stands in the table.
-/

namespace PageScript

inductive BinaryOp
  | xor | or | and
  | eq | notEq | less | greater | lessEq | greaterEq | is
  | concat
  | add | sub
  | mod
  | intDiv
  | mul | div
  | pow
deriving DecidableEq, Inhabited

def BinaryOp.symbol : BinaryOp → String
  | .xor => "xor"
  | .or => "or"
  | .and => "and"
  | .eq => "="
  | .notEq => "<>"
  | .less => "<"
  | .greater => ">"
  | .lessEq => "<="
  | .greaterEq => ">="
  | .is => "is"
  | .concat => "&"
  | .add => "+"
  | .sub => "-"
  | .mod => "mod"
  | .intDiv => "\\"
  | .mul => "*"
  | .div => "/"
  | .pow => "^"

inductive UnaryOp
  /-- the sign, which binds one factor -/
  | neg
  /-- `not`, which takes everything behind it -/
  | not
deriving DecidableEq, Inhabited

def UnaryOp.symbol : UnaryOp → String
  | .neg => "-"
  | .not => "not"

/-! ## groups -/

/-- operators that bind equally -/
structure OperatorGroup where
  operators : List BinaryOp
deriving DecidableEq

namespace OperatorGroup

def keyword? (g : OperatorGroup) (word : String) : Option BinaryOp :=
  g.operators.find? fun op => Text.sameWord op.symbol word

def symbol? (g : OperatorGroup) (sign : String) : Option BinaryOp :=
  g.operators.find? fun op => op.symbol == sign

def startsWith (g : OperatorGroup) (c : Char) : Bool :=
  g.operators.any fun op => op.symbol.toList.head? == some c

end OperatorGroup

/-- the groups from the loosest to the tightest -/
def precedence : List OperatorGroup :=
  [⟨[.xor]⟩, ⟨[.or]⟩, ⟨[.and]⟩,
   ⟨[.eq, .notEq, .less, .greater, .lessEq, .greaterEq, .is]⟩,
   ⟨[.concat]⟩, ⟨[.add, .sub]⟩, ⟨[.mod]⟩, ⟨[.intDiv]⟩, ⟨[.mul, .div]⟩, ⟨[.pow]⟩]

/-- every operator stands in the table -/
theorem precedence_complete (op : BinaryOp) : ∃ g ∈ precedence, op ∈ g.operators := by
  cases op <;> decide

/-- how tightly an operator binds: the index of its group -/
def BinaryOp.level (op : BinaryOp) : Nat := precedence.findIdx fun g => g.operators.contains op

end PageScript
