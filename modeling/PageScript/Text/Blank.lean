/-!
# Blank characters

The characters that count as blank around a number or a truth word: those with the Unicode
property White_Space, twenty-five in all.

* `trim`   a text without the blank characters at its two ends.
-/

namespace PageScript.Text

/-- the ranges of code points with the property White_Space -/
def blankRanges : List (Nat × Nat) :=
  [(0x09, 0x0d), (0x20, 0x20), (0x85, 0x85), (0xa0, 0xa0), (0x1680, 0x1680), (0x2000, 0x200a),
   (0x2028, 0x2029), (0x202f, 0x202f), (0x205f, 0x205f), (0x3000, 0x3000)]

def isBlank (c : Char) : Bool :=
  blankRanges.any fun (low, high) => low ≤ c.toNat && c.toNat ≤ high

def trimLeft (cs : List Char) : List Char := cs.dropWhile isBlank

/-- a text without the blank characters at either end -/
def trim (cs : List Char) : List Char := (trimLeft (trimLeft cs).reverse).reverse

example : (blankRanges.map fun (low, high) => high + 1 - low).sum = 25 := by decide

end PageScript.Text
