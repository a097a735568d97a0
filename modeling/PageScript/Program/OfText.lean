import PageScript.Parser.Statement

/-!
# Programs from text

A whole text as a block or as one expression: everything up to the end of the input has to belong
to it.
-/

namespace PageScript

/-- something up to the end of the input -/
def Parser.whole {p : Type → Type} [Reader p] {α : Type} (expected : Expectation) (read : p α) :
    p α := do
  let a ← read
  let token ← next
  if token.isEnd then return a else fail (token.unexpected expected)

def Block.parser : Parser Block := Parser.whole .statement (Parser.block Parser.maxNesting)

def Expr.parser : Parser Expr :=
  Parser.whole .endOfInput (Parser.nested Parser.maxNesting).expression

def Block.ofText (sourceName : String) (mode : Mode) (text : String) : Except ParseError Block :=
  (Block.parser.run (TokenStream.ofText sourceName mode text)).map Prod.fst

def Expr.ofText (sourceName text : String) : Except ParseError Expr :=
  (Expr.parser.run (TokenStream.ofText sourceName .code text)).map Prod.fst

end PageScript
