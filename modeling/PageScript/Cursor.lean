import PageScript.Location

/-!
# A text read character by character

A cursor stands in a named text before its next character and knows that character's position.
Behind the last character it stays where it is.
-/

namespace PageScript

structure Cursor where
  sourceName : String
  position : Position
  rest : List Char

def Cursor.ofText (sourceName text : String) : Cursor := ⟨sourceName, .start, text.toList⟩

/-- the location of the next character, or of the end -/
def Cursor.location (c : Cursor) : Location := c.position.locate c.sourceName

def Cursor.peek (c : Cursor) : Option Char := c.rest.head?

def Cursor.forward (c : Cursor) : Cursor :=
  match c.rest with
  | [] => c
  | ch :: rest => { c with position := c.position.advance ch, rest }

/-- the next character with its location, and the cursor behind it -/
def Cursor.next (c : Cursor) : Option (Char × Location) × Cursor :=
  (c.peek.map fun ch => (ch, c.location), c.forward)

end PageScript
