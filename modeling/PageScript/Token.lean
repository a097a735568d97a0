import PageScript.Location
import PageScript.Text.Fold
import PageScript.Text.Integer

/-!
# Tokens

What a script is made of: words, single symbols, integer and string literals, the chunks of plain
text between code sections, and the end of the input.  A line feed in code is the symbol `:`, so
a statement ends at a `:`, at a text chunk or at the end of the input.
-/

namespace PageScript

inductive TokenKind
  /-- a name or a keyword, in the spelling of the source -/
  | word (spelling : String)
  | symbol (sign : Char)
  | integer (value : Int64)
  /-- a string literal, with its doubled quotes already single -/
  | string (value : String)
  /-- the plain text between two code sections -/
  | chunk (text : String)
  | endOfInput
deriving DecidableEq, Inhabited

structure Token where
  kind : TokenKind
  location : Location
deriving DecidableEq, Inhabited

/-! ## tests on tokens -/

/-- the token is this keyword, in any letter case -/
def TokenKind.isKeyword (k : TokenKind) (keyword : String) : Bool :=
  match k with
  | .word spelling => Text.sameWord spelling keyword
  | _ => false

def TokenKind.endsStatement : TokenKind → Bool
  | .symbol sign => sign == ':'
  | .chunk _ => true
  | .endOfInput => true
  | .word _ | .integer _ | .string _ => false

def Token.isKeyword (t : Token) (keyword : String) : Bool := t.kind.isKeyword keyword
def Token.isSymbol (t : Token) (sign : Char) : Bool := t.kind == .symbol sign
def Token.isEnd (t : Token) : Bool := t.kind == .endOfInput
def Token.endsStatement (t : Token) : Bool := t.kind.endsStatement

/-! ## wording -/

/-- a string literal as source text: in quotes, with every quote in it doubled -/
def Text.quoted (text : String) : String :=
  "\"" ++ String.ofList (text.toList.flatMap fun c => if c = '"' then ['"', '"'] else [c]) ++ "\""

/-- how a report names a token -/
def TokenKind.text : TokenKind → String
  | .word spelling => "'" ++ spelling ++ "'"
  | .symbol sign => "'" ++ String.singleton sign ++ "'"
  | .integer value => Text.decimal value
  | .string value => Text.quoted value
  | .chunk _ => "模板文本"
  | .endOfInput => "输入结尾"

end PageScript
