import PageScript.Json
import PageScript.Text.Integer

/-!
# Reading JSON

A strict reader: no comments, no trailing commas, no byte order mark, nothing behind the value but
blanks.  `read` takes the whole text or fails.

A string may hold escaped surrogates.  Two that form a pair are one character.  One that stands
alone is refused in the names of the outermost object, the only text that is compared with
anything, and is read as U+FFFD everywhere else.

Every call takes one unit of `fuel` and every second call at least one character, so twice the
length of the text is never used up.
-/

namespace PageScript.Json

/-- what becomes of a surrogate that stands alone -/
inductive LoneSurrogate
  | refused
  | replaced
deriving DecidableEq

/-! ## blanks and strings -/

def isSpace (c : Char) : Bool := c = ' ' || c = '\n' || c = '\t' || c = '\r'

def skipSpace (cs : List Char) : List Char := cs.dropWhile isSpace

def hexValue (c : Char) : Option Nat :=
  if '0' ≤ c && c ≤ '9' then some (c.toNat - 48)
  else if 'a' ≤ c && c ≤ 'f' then some (c.toNat - 87)
  else if 'A' ≤ c && c ≤ 'F' then some (c.toNat - 55)
  else none

/-- a character of a string, or a sixteen-bit unit from an escape -/
inductive Piece
  | char (c : Char)
  | unit (n : Nat)

/-- the character that a one-letter escape stands for -/
def simpleEscape (c : Char) : Option Char :=
  if c = '"' then some '"'
  else if c = '\\' then some '\\'
  else if c = '/' then some '/'
  else if c = 'b' then some '\x08'
  else if c = 'f' then some '\x0c'
  else if c = 'n' then some '\n'
  else if c = 'r' then some '\r'
  else if c = 't' then some '\t'
  else none

/-- the pieces of a string behind its opening quote, and what follows its closing quote -/
def readPieces : List Char → Option (List Piece × List Char)
  | [] => none
  | '"' :: cs => some ([], cs)
  | '\\' :: 'u' :: a :: b :: c :: d :: cs => do
    let n := (((← hexValue a) * 16 + (← hexValue b)) * 16 + (← hexValue c)) * 16 + (← hexValue d)
    let (ps, rest) ← readPieces cs
    some (.unit n :: ps, rest)
  | '\\' :: c :: cs => do
    let c ← simpleEscape c
    let (ps, rest) ← readPieces cs
    some (.char c :: ps, rest)
  | c :: cs =>
    if c = '\\' || c.toNat < 0x20 then none
    else do
      let (ps, rest) ← readPieces cs
      some (.char c :: ps, rest)

def isHigh (n : Nat) : Bool := 0xD800 ≤ n && n < 0xDC00
def isLow (n : Nat) : Bool := 0xDC00 ≤ n && n < 0xE000

/-- the characters of a string -/
def assemble (lone : LoneSurrogate) : List Piece → Option (List Char)
  | [] => some []
  | .char c :: ps => (assemble lone ps).map (c :: ·)
  | .unit high :: .unit low :: ps =>
    if isHigh high && isLow low then
      let c := Char.ofNat (0x10000 + (high - 0xD800) * 0x400 + (low - 0xDC00))
      (assemble lone ps).map (c :: ·)
    else if isHigh high || isLow high then
      if lone = .refused then none
      else (assemble lone (.unit low :: ps)).map ('\ufffd' :: ·)
    else (assemble lone (.unit low :: ps)).map (Char.ofNat high :: ·)
  | .unit n :: ps =>
    if isHigh n || isLow n then
      if lone = .refused then none else (assemble lone ps).map ('\ufffd' :: ·)
    else (assemble lone ps).map (Char.ofNat n :: ·)

def readString (lone : LoneSurrogate) (cs : List Char) : Option (String × List Char) := do
  let (ps, rest) ← readPieces cs
  let text ← assemble lone ps
  some (String.ofList text, rest)

/-! ## numbers -/

/-- at least one digit, and what follows the digits -/
def readDigits (cs : List Char) : Option (List Char × List Char) :=
  match cs.takeWhile Text.isDigit with
  | [] => none
  | ds => some (ds, cs.dropWhile Text.isDigit)

def readFraction : List Char → Option (List Char × List Char)
  | '.' :: cs => do
    let (ds, rest) ← readDigits cs
    some ('.' :: ds, rest)
  | cs => some ([], cs)

/-- the sign of an exponent, which may be absent -/
def splitSign : List Char → List Char × List Char
  | '+' :: cs => (['+'], cs)
  | '-' :: cs => (['-'], cs)
  | cs => ([], cs)

def readExponent : List Char → Option (List Char × List Char)
  | [] => some ([], [])
  | c :: cs =>
    if c = 'e' || c = 'E' then do
      let (sign, cs) := splitSign cs
      let (ds, rest) ← readDigits cs
      some (c :: sign ++ ds, rest)
    else some ([], c :: cs)

def readUnsigned (negative : Bool) (cs : List Char) : Option (Json × List Char) := do
  let (whole, rest) ← readDigits cs
  if whole.head? = some '0' && whole.length > 1 then none
  else
    let (fraction, rest) ← readFraction rest
    let (exponent, rest) ← readExponent rest
    let n := Text.digitsValue whole
    if fraction.isEmpty && exponent.isEmpty && !(negative && n == 0) then
      some (.int (if negative then -n else n), rest)
    else
      let sign := if negative then ['-'] else []
      some (.real (String.ofList (sign ++ whole ++ fraction ++ exponent)), rest)

def readNumber : List Char → Option (Json × List Char)
  | '-' :: cs => readUnsigned true cs
  | cs => readUnsigned false cs

/-! ## values -/

mutual
/-- the value in front of a text, and what follows it -/
def readValue (names : LoneSurrogate) : Nat → List Char → Option (Json × List Char)
  | 0, _ => none
  | fuel + 1, cs =>
    match skipSpace cs with
    | 'n' :: 'u' :: 'l' :: 'l' :: rest => some (.null, rest)
    | 't' :: 'r' :: 'u' :: 'e' :: rest => some (.bool true, rest)
    | 'f' :: 'a' :: 'l' :: 's' :: 'e' :: rest => some (.bool false, rest)
    | '"' :: rest => do
      let (s, rest) ← readString .replaced rest
      some (.str s, rest)
    | '[' :: rest =>
      match skipSpace rest with
      | ']' :: rest => some (.arr [], rest)
      | rest => do
        let (items, rest) ← readItems fuel rest
        some (.arr items, rest)
    | '\x7b' :: rest =>
      match skipSpace rest with
      | '\x7d' :: rest => some (.obj [], rest)
      | rest => do
        let (fields, rest) ← readFields names fuel rest
        some (.obj fields, rest)
    | rest => readNumber rest

def readItems : Nat → List Char → Option (List Json × List Char)
  | 0, _ => none
  | fuel + 1, cs => do
    let (item, rest) ← readValue .replaced fuel cs
    match skipSpace rest with
    | ',' :: rest =>
      let (items, rest) ← readItems fuel rest
      some (item :: items, rest)
    | ']' :: rest => some ([item], rest)
    | _ => none

def readFields (names : LoneSurrogate) : Nat → List Char → Option (List Field × List Char)
  | 0, _ => none
  | fuel + 1, cs =>
    match skipSpace cs with
    | '"' :: rest => do
      let (name, rest) ← readString names rest
      match skipSpace rest with
      | ':' :: rest =>
        let (value, rest) ← readValue .replaced fuel rest
        match skipSpace rest with
        | ',' :: rest =>
          let (fields, rest) ← readFields names fuel rest
          some (⟨name, value⟩ :: fields, rest)
        | '\x7d' :: rest => some ([⟨name, value⟩], rest)
        | _ => none
      | _ => none
    | _ => none
end

/-- the value that a whole text denotes -/
def read (text : String) : Option Json := do
  let cs := text.toList
  let (value, rest) ← readValue .refused (2 * cs.length + 2) cs
  if (skipSpace rest).isEmpty then some value else none

end PageScript.Json
