import PageScript.Token.Lexer

/-!
# Token streams

A stream holds everything that scanning a text still has to report, in order: tokens, and faults
in the places where no token could be formed.  Behind the last report stands the end of the input,
as often as it is asked for.

* `TokenStream.ofText`    all reports of a text, from code or from a chunk on;
* `TokenStream.next`      takes the next report;
* `TokenStream.peek`      shows the next token and keeps it; a fault is reported once and dropped.
-/

namespace PageScript

/-- what a text starts with: code, or a chunk of plain text -/
inductive Mode
  | code
  | template
deriving DecidableEq, Inhabited

structure TokenStream where
  /-- the reports in front of the end of the input -/
  pending : List (Except ParseError Token)
  /-- where the input ends -/
  finish : Location

namespace TokenStream

def endToken (s : TokenStream) : Token := ⟨.endOfInput, s.finish⟩

/-- one more report in front -/
def report (r : Except ParseError Token) (s : TokenStream) : TokenStream :=
  { s with pending := r :: s.pending }

/-- a scan's result as a report with its location -/
def located (sourceName : String) (p : Position) (s : Scan) : Except ParseError Token :=
  let location := (p.after s.lead).locate sourceName
  match s.result with
  | .ok kind => .ok ⟨kind, location⟩
  | .error fault => .error ⟨location, fault⟩

/-- where the text behind a scan starts -/
def behind (p : Position) (s : Scan) : Position := p.after (s.lead ++ s.body)

def ofCode (sourceName : String) (p : Position) (cs : List Char) : TokenStream :=
  if _h : (Scan.code cs).atEnd then
    ⟨[], (p.after (Scan.code cs).lead).locate sourceName⟩
  else
    (ofCode sourceName (behind p (Scan.code cs)) (Scan.code cs).rest).report
      (located sourceName p (Scan.code cs))
termination_by cs.length
decreasing_by
  exact Scan.code_shorter cs (by simpa using _h)

def ofTemplate (sourceName : String) (p : Position) (cs : List Char) : TokenStream :=
  (ofCode sourceName (behind p (Scan.chunk cs)) (Scan.chunk cs).rest).report
    (located sourceName p (Scan.chunk cs))

/-- everything that a text has to report -/
def ofText (sourceName : String) (mode : Mode) (text : String) : TokenStream :=
  match mode with
  | .code => ofCode sourceName .start text.toList
  | .template => ofTemplate sourceName .start text.toList

/-- the next report, and the stream behind it -/
def next (s : TokenStream) : Except ParseError Token × TokenStream :=
  match s.pending with
  | [] => (.ok s.endToken, s)
  | r :: rest => (r, { s with pending := rest })

/-- the next report, and the stream in which a token still waits to be taken -/
def peek (s : TokenStream) : Except ParseError Token × TokenStream :=
  match s.pending with
  | .error e :: rest => (.error e, { s with pending := rest })
  | .ok t :: _ => (.ok t, s)
  | [] => (.ok s.endToken, s)

/-- all reports, the end of the input last -/
def reports (s : TokenStream) : List (Except ParseError Token) := s.pending ++ [.ok s.endToken]

end TokenStream

end PageScript
