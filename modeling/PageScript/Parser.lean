import PageScript.Token.Stream

/-!
# Parsers

A parser takes tokens from a stream and yields a result, or stops at the first fault.  It looks at
most one token ahead and never goes back.

* `Parser.collect`     repeats a parser until it finds nothing more; a round that takes no token is
                       the last one, so repetition always ends (`collect_eq`);
* `Parser.expectEnd`   `end` with the word of the block that it closes;
* `Reader`             what the grammar needs of the way it is read.
-/

namespace PageScript

/-- a result and the stream behind it, or the fault that stopped the parser -/
abbrev Parser (α : Type) := StateT TokenStream (Except ParseError) α

/-- words that name no variable, function or class -/
def reservedWords : List String :=
  ["and", "byref", "byval", "call", "class", "dim", "else", "elseif", "end", "exit", "false",
   "function", "if", "is", "mod", "new", "not", "option", "or", "private", "public", "set",
   "sub", "then", "true", "xor"]

def isReserved (word : String) : Bool := reservedWords.contains (Text.fold word)

namespace Parser

variable {α : Type}

/-! ## single tokens -/

def next : Parser Token := fun s =>
  match s.next with
  | (.ok t, rest) => .ok (t, rest)
  | (.error e, _) => .error e

def peek : Parser Token := fun s =>
  match s.peek with
  | (.ok t, rest) => .ok (t, rest)
  | (.error e, _) => .error e

/-- where the next token stands -/
def here : Parser Location := return (← peek).location

def fail (e : ParseError) : Parser α := fun _ => .error e

def peekIsKeyword (word : String) : Parser Bool := return (← peek).isKeyword word

def peekIsSymbol (sign : Char) : Parser Bool := return (← peek).isSymbol sign

def eatKeyword (word : String) : Parser Bool := do
  if ← peekIsKeyword word then
    let _ ← next
    return true
  else return false

/-- takes a symbol if it comes next -/
def eatSymbol (sign : Char) : Parser Bool := do
  if ← peekIsSymbol sign then
    let _ ← next
    return true
  else return false

def expectKeyword (word : String) : Parser Unit := do
  let token ← next
  if token.isKeyword word then return () else fail (token.unexpected (.keyword word))

def expectSymbol (sign : Char) : Parser Unit := do
  let token ← next
  if token.isSymbol sign then return () else fail (token.unexpected (.symbol sign))

/-- a name that is not reserved, with its location -/
def expectName (expected : Expectation) : Parser (String × Location) := do
  let token ← next
  match token.kind with
  | .word name =>
    if isReserved name then fail (token.unexpected expected) else return (name, token.location)
  | _ => fail (token.unexpected expected)

/-- the name of a member, which may be a reserved word -/
def expectMember : Parser String := do
  let token ← next
  match token.kind with
  | .word name => return name
  | _ => fail (token.unexpected .member)

/-! ## ends -/

/-- the end of a statement; a chunk or the end of the input stays for the block around it -/
def endOfStatement : Parser Unit := do
  let token ← peek
  if token.isSymbol ':' then
    let _ ← next
    return ()
  else if token.endsStatement then return ()
  else fail (token.unexpected .endOfStatement)

/-- `end` and the word of the block that ends -/
def expectEnd (word : String) : Parser Unit := do
  expectKeyword "end"
  let token ← next
  if token.isKeyword word then return ()
  else match token.kind with
    | .word found => fail ⟨token.location, .mismatchedEnd word found⟩
    | _ => fail (token.unexpected (.keyword word))

/-! ## repetition -/

/-- the results of a parser, repeated until it finds nothing or takes no token -/
def collect (item : Parser (Option α)) : Parser (List α) := fun s =>
  match item s with
  | .error e => .error e
  | .ok (none, rest) => .ok ([], rest)
  | .ok (some a, rest) =>
    if _h : rest.pending.length < s.pending.length then
      match collect item rest with
      | .error e => .error e
      | .ok (as, rest) => .ok (a :: as, rest)
    else .ok ([a], rest)
termination_by s => s.pending.length

theorem collect_eq (item : Parser (Option α)) (s : TokenStream) :
    collect item s = match item s with
      | .error e => .error e
      | .ok (none, rest) => .ok ([], rest)
      | .ok (some a, rest) =>
        if rest.pending.length < s.pending.length then
          match collect item rest with
          | .error e => .error e
          | .ok (as, rest) => .ok (a :: as, rest)
        else .ok ([a], rest) := by
  rw [collect]; simp only [dite_eq_ite]

/-! ## nesting -/

/-- how deep expressions and blocks may be nested -/
def maxNesting : Nat := 64

def tooDeep (loc : Location) : ParseError := ⟨loc, .nestingTooDeep maxNesting⟩

end Parser

/-! ## readers -/

/-- what the grammar needs of the way it is read -/
class Reader (p : Type → Type) extends Monad p where
  /-- takes tokens or looks at them -/
  tokens {α : Type} : Parser α → p α
  /-- the results of something, repeated until it finds nothing -/
  repeated {α : Type} : p (Option α) → p (List α)
  /-- reads what stands one level of nesting further in -/
  deepen {α : Type} : Parser Location → p α → p α
  /-- takes the place of what would stand too deep -/
  refuse {α : Type} : Parser Location → p α

instance {p : Type → Type} [Reader p] : MonadLift Parser p := ⟨Reader.tokens⟩

instance : Reader Parser where
  tokens x := x
  repeated := Parser.collect
  deepen _ x := x
  refuse loc := do Parser.fail (Parser.tooDeep (← loc))

end PageScript
