/-!
# Positions and locations

A position is a line and a column, both counted from one; a column counts characters, and only
a line feed starts a new line.  A location is a position in a named source.

* `Position.advance`, `Position.after`   the position behind one character, behind a text;
* `Position.after_append`                walking a text in two parts is walking it at once;
* `Location.text`                        the form `name:line:column` of every report.
-/

namespace PageScript

/-! ## positions -/

structure Position where
  line : Nat
  column : Nat
deriving DecidableEq, Inhabited

/-- where every text begins -/
def Position.start : Position := ⟨1, 1⟩

/-- the position behind a character -/
def Position.advance (p : Position) (c : Char) : Position :=
  if c = '\n' then ⟨p.line + 1, 1⟩ else ⟨p.line, p.column + 1⟩

/-- the position behind a text -/
def Position.after (p : Position) (cs : List Char) : Position := cs.foldl Position.advance p

@[simp] theorem Position.after_nil (p : Position) : p.after [] = p := rfl

@[simp] theorem Position.after_cons (p : Position) (c : Char) (cs : List Char) :
    p.after (c :: cs) = (p.advance c).after cs := rfl

theorem Position.after_append (p : Position) (a b : List Char) :
    p.after (a ++ b) = (p.after a).after b := List.foldl_append

/-! ## locations -/

structure Location where
  sourceName : String
  line : Nat
  column : Nat
deriving DecidableEq, Inhabited

/-- a position as a place in a named source -/
def Position.locate (p : Position) (sourceName : String) : Location :=
  ⟨sourceName, p.line, p.column⟩

def Location.text (l : Location) : String :=
  l.sourceName ++ ":" ++ toString l.line ++ ":" ++ toString l.column

end PageScript
