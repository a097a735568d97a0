import PageScript.ParseError

/-!
# From characters to tokens

`Scan.code` finds the next token of a text that starts in code: it passes blanks and comments,
then takes a whole token.  A scan says which characters it went past (`lead`), which belong to its
result (`body`) and which are left (`rest`), so positions are read off the text itself.

* `Scan.code_parts`    the three parts of a scan make up the text that was scanned;
* `Scan.code_shorter`  a scan that does not report the end leaves a shorter text.

`%>` leaves code: the characters up to the next `<%`, or to the end, are one chunk, located behind
the `%>`.  A comment runs to the end of its line, but a `%>` inside it still leaves code.
-/

namespace PageScript

/-- the outcome of looking for one token -/
structure Scan where
  /-- characters in front of the location that is reported -/
  lead : List Char
  /-- characters of the result -/
  body : List Char
  result : Except ParseFault TokenKind
  rest : List Char

namespace Scan

/-- the same outcome, one character further on in a longer text -/
def behind (c : Char) (s : Scan) : Scan := { s with lead := c :: s.lead }

/-! ## pieces of tokens -/

def isNameStart (c : Char) : Bool := c.isAlpha || c == '_'
def isNameChar (c : Char) : Bool := c.isAlphanum || c == '_'

theorem isNameChar_of_isNameStart {c : Char} (h : isNameStart c = true) : isNameChar c = true := by
  simp only [isNameStart, isNameChar, Char.isAlphanum, Bool.or_eq_true] at h ⊢
  exact h.imp_left Or.inl

/-- the text of a chunk, the mark that ends it, and what follows -/
def splitChunk : List Char → List Char × List Char × List Char
  | [] => ([], [], [])
  | '<' :: '%' :: rest => ([], ['<', '%'], rest)
  | c :: cs =>
    let (text, mark, rest) := splitChunk cs
    (c :: text, mark, rest)

/-- a string literal behind its opening quote: the value if the literal is closed, the characters
taken, and what follows; a line feed ends an open literal and is taken -/
def splitString : List Char → Option (List Char) × List Char × List Char
  | [] => (none, [], [])
  | '"' :: '"' :: cs =>
    let (value, taken, rest) := splitString cs
    (value.map ('"' :: ·), '"' :: '"' :: taken, rest)
  | '"' :: cs => (some [], ['"'], cs)
  | '\n' :: cs => (none, ['\n'], cs)
  | c :: cs =>
    let (value, taken, rest) := splitString cs
    (value.map (c :: ·), c :: taken, rest)

/-! ## whole tokens -/

def chunk (cs : List Char) : Scan :=
  let (text, mark, rest) := splitChunk cs
  ⟨[], text ++ mark, .ok (.chunk (String.ofList text)), rest⟩

def string (cs : List Char) : Scan :=
  let (value, taken, rest) := splitString cs
  let result := match value with
    | some value => .ok (.string (String.ofList value))
    | none => .error .unterminatedString
  ⟨[], '"' :: taken, result, rest⟩

def integer (cs : List Char) : Scan :=
  let literal := cs.takeWhile Text.isDigit
  let result := match Text.readInteger literal with
    | some value => .ok (.integer value)
    | none => .error (.integerOverflow (String.ofList literal))
  ⟨[], literal, result, cs.dropWhile Text.isDigit⟩

def word (cs : List Char) : Scan :=
  let spelling := cs.takeWhile isNameChar
  ⟨[], spelling, .ok (.word (String.ofList spelling)), cs.dropWhile isNameChar⟩

def symbol (c sign : Char) (rest : List Char) : Scan := ⟨[], [c], .ok (.symbol sign), rest⟩

def endOfInput : Scan := ⟨[], [], .ok .endOfInput, []⟩

/-- the next token behind the start of a comment -/
def comment : List Char → Scan
  | [] => endOfInput
  | '\n' :: cs => symbol '\n' ':' cs
  | '%' :: '>' :: cs => ((chunk cs).behind '>').behind '%'
  | c :: cs => (comment cs).behind c

/-- the next token of a text that starts in code -/
def code : List Char → Scan
  | [] => endOfInput
  | '%' :: '>' :: cs => ((chunk cs).behind '>').behind '%'
  | c :: cs =>
    if c = ' ' ∨ c = '\t' ∨ c = '\r' then (code cs).behind c
    else if c = '\n' then symbol c ':' cs
    else if c = '\'' then (comment cs).behind c
    else if c = '"' then string cs
    else if Text.isDigit c then integer (c :: cs)
    else if isNameStart c then word (c :: cs)
    else symbol c c cs

/-! ## the parts of a scan make up its text -/

/-- what a scan went past, took and left, in order -/
def parts (s : Scan) : List Char := s.lead ++ s.body ++ s.rest

@[simp] theorem parts_behind (c : Char) (s : Scan) : (s.behind c).parts = c :: s.parts := rfl

theorem splitChunk_parts (cs : List Char) :
    (splitChunk cs).1 ++ (splitChunk cs).2.1 ++ (splitChunk cs).2.2 = cs := by
  fun_induction splitChunk cs <;> simp_all

theorem splitString_parts (cs : List Char) :
    (splitString cs).2.1 ++ (splitString cs).2.2 = cs := by
  fun_induction splitString cs <;> simp_all

@[simp] theorem parts_chunk (cs : List Char) : (chunk cs).parts = cs := by
  simpa [chunk, parts] using splitChunk_parts cs

@[simp] theorem parts_string (cs : List Char) : (string cs).parts = '"' :: cs := by
  simpa [string, parts] using splitString_parts cs

@[simp] theorem parts_integer (cs : List Char) : (integer cs).parts = cs := by
  simp [integer, parts]

@[simp] theorem parts_word (cs : List Char) : (word cs).parts = cs := by
  simp [word, parts]

@[simp] theorem parts_symbol (c sign : Char) (cs : List Char) :
    (symbol c sign cs).parts = c :: cs := rfl

@[simp] theorem parts_endOfInput : endOfInput.parts = [] := rfl

theorem comment_parts (cs : List Char) : (comment cs).parts = cs := by
  fun_induction comment cs <;> simp_all

/-- **Nothing is lost**: a scan's parts are the text that was scanned. -/
theorem code_parts (cs : List Char) : (code cs).parts = cs := by
  fun_induction code cs <;> simp_all [comment_parts]

/-! ## a token takes characters -/

theorem rest_length (s : Scan) {cs : List Char} (h : s.parts = cs) :
    s.rest.length + (s.lead.length + s.body.length) = cs.length := by
  rw [← h]
  simp only [parts, List.length_append]
  omega

/-- the scan found no more token -/
def atEnd (s : Scan) : Bool := match s.result with
  | .ok .endOfInput => true
  | _ => false

/-- only the end of the input takes nothing -/
def Advances (s : Scan) : Prop := s.atEnd = false → 0 < s.lead.length + s.body.length

theorem advances_behind (c : Char) (s : Scan) : (s.behind c).Advances := by
  intro _
  simp only [behind, List.length_cons]
  omega

theorem code_advances (cs : List Char) : (code cs).Advances := by
  fun_cases code cs
  · intro h; cases h
  · exact advances_behind _ _
  · exact advances_behind _ _
  · intro _; simp [symbol]
  · exact advances_behind _ _
  · intro _; simp [string]
  · next hd => intro _; simp [integer, hd]
  · next hn => intro _; simp [word, isNameChar_of_isNameStart hn]
  · intro _; simp [symbol]

/-- a scan that does not report the end leaves a shorter text -/
theorem code_shorter (cs : List Char) (h : (code cs).atEnd = false) :
    (code cs).rest.length < cs.length := by
  have h1 := rest_length _ (code_parts cs)
  have h2 := code_advances cs h
  omega

end Scan

end PageScript
