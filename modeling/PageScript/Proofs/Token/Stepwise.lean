import PageScript.Cursor
import PageScript.Proofs.Token.Kinds
import PageScript.Token.Stream

/-!
# Tokens one character at a time

A lexer holds a cursor and what the text in front of it starts with.  It takes one character after
the other and sees no further than the next; every loop ends where the cursor stands, in the middle
of the text too, and the next call goes on from there.  Nothing is known of the text as a whole:
places are those of the cursor.

* `Lexer.next`          one call: a token or a fault, and the lexer behind it;
* `Lexer.chunkText`, `Lexer.stringValue`, `Lexer.run`, `Lexer.comment`   the loops;
* `Lexer.next_eq`       a call is the scan of what is left of the text;
* `Lexer.next_stream`   a lexer reports what its token stream holds.
-/

namespace PageScript

/-! ## cursors -/

namespace Cursor

theorem length_forward_le (c : Cursor) : c.forward.rest.length ≤ c.rest.length := by
  obtain ⟨name, p, cs⟩ := c
  cases cs with
  | nil => exact Nat.le_refl _
  | cons ch cs => exact Nat.le_succ _

theorem length_forward_lt {c : Cursor} {ch : Char} (h : c.peek = some ch) :
    c.forward.rest.length < c.rest.length := by
  obtain ⟨name, p, cs⟩ := c
  cases cs with
  | nil => cases h
  | cons ch' cs => exact Nat.lt_succ_self _

/-- a cursor that has given a character stands further on -/
theorem length_next_lt {c c' : Cursor} {ch : Char} {l : Location}
    (h : c.next = (some (ch, l), c')) : c'.rest.length < c.rest.length := by
  obtain ⟨hfound, rfl⟩ := Prod.mk.inj h
  obtain ⟨ch', hpeek, -⟩ := Option.map_eq_some_iff.mp hfound
  exact length_forward_lt hpeek

end Cursor

/-! ## the end of a text -/

namespace Scan

theorem eq_of_comment_atEnd {cs : List Char} (h : (comment cs).atEnd = true) :
    comment cs = ⟨cs, [], .ok .endOfInput, []⟩ := by
  fun_induction comment cs with
  | case1 => rfl
  | case2 => cases h
  | case3 => cases h
  | case4 c cs _ _ ih => rw [ih h]; rfl

/-- a scan that reports the end has gone past all that was left -/
theorem eq_of_atEnd {cs : List Char} (h : (code cs).atEnd = true) :
    code cs = ⟨cs, [], .ok .endOfInput, []⟩ := by
  fun_induction code cs with
  | case1 => rfl
  | case2 => cases h
  | case3 c cs _ _ ih => rw [ih h]; rfl
  | case4 => cases h
  | case5 cs => rw [eq_of_comment_atEnd h]; rfl
  | case6 cs =>
    cases hvalue : (splitString cs).1 <;> simp [string, atEnd, hvalue] at h
  | case7 c cs =>
    cases hread : Text.readInteger ((c :: cs).takeWhile Text.isDigit) <;>
      simp [integer, atEnd, hread] at h
  | case8 => cases h
  | case9 => cases h

end Scan

/-! ## the loops -/

structure Lexer where
  mode : Mode
  cursor : Cursor

namespace Lexer

/-- the text of a chunk, and the cursor behind the mark that ends it -/
def chunkText (c : Cursor) : List Char × Cursor :=
  match _h : c.next with
  | (none, c') => ([], c')
  | (some (ch, _), c') =>
    if ch = '<' ∧ c'.peek = some '%' then ([], c'.forward)
    else (ch :: (chunkText c').1, (chunkText c').2)
termination_by c.rest.length
decreasing_by all_goals exact Cursor.length_next_lt _h

/-- the value of a string literal behind its opening quote, if it is closed -/
def stringValue (c : Cursor) : Option (List Char) × Cursor :=
  match _h : c.next with
  | (none, c') => (none, c')
  | (some (ch, _), c') =>
    if ch = '"' then
      if c'.peek = some '"' then
        ((stringValue c'.forward).1.map ('"' :: ·), (stringValue c'.forward).2)
      else (some [], c')
    else if ch = '\n' then (none, c')
    else ((stringValue c').1.map (ch :: ·), (stringValue c').2)
termination_by c.rest.length
decreasing_by
  all_goals
    have := Cursor.length_next_lt _h
    have := c'.length_forward_le
    omega

/-- the characters of a class in a row -/
def run (p : Char → Bool) (c : Cursor) : List Char × Cursor :=
  match _h : c.peek with
  | none => ([], c)
  | some ch => if p ch then (ch :: (run p c.forward).1, (run p c.forward).2) else ([], c)
termination_by c.rest.length
decreasing_by all_goals exact Cursor.length_forward_lt _h

def chunk (c : Cursor) : Token × Cursor :=
  (⟨.chunk (String.ofList (chunkText c).1), c.location⟩, (chunkText c).2)

/-- a comment up to the end of its line, or the chunk behind a mark in it -/
def comment (c : Cursor) : Option Token × Cursor :=
  match _h : c.peek with
  | none => (none, c)
  | some ch =>
    if ch = '\n' then (none, c)
    else if ch = '%' ∧ c.forward.peek = some '>' then
      (some (chunk c.forward.forward).1, (chunk c.forward.forward).2)
    else comment c.forward
termination_by c.rest.length
decreasing_by exact Cursor.length_forward_lt _h

theorem length_chunkText_le (c : Cursor) : (chunkText c).2.rest.length ≤ c.rest.length := by
  fun_induction chunkText c with
  | case1 c c' h =>
    obtain ⟨-, rfl⟩ := Prod.mk.inj h
    exact c.length_forward_le
  | case2 c ch l c' h _ =>
    exact Nat.le_trans c'.length_forward_le (Nat.le_of_lt (Cursor.length_next_lt h))
  | case3 c ch l c' h _ ih => exact Nat.le_trans ih (Nat.le_of_lt (Cursor.length_next_lt h))

theorem length_comment_le (c : Cursor) : (comment c).2.rest.length ≤ c.rest.length := by
  fun_induction comment c with
  | case1 => exact Nat.le_refl _
  | case2 => exact Nat.le_refl _
  | case3 c =>
    exact Nat.le_trans (length_chunkText_le _)
      (Nat.le_trans c.forward.length_forward_le c.length_forward_le)
  | case4 c _ _ _ _ ih => exact Nat.le_trans ih c.length_forward_le

def string (l : Location) (c : Cursor) : Except ParseError Token × Cursor :=
  match stringValue c with
  | (some value, c') => (.ok ⟨.string (String.ofList value), l⟩, c')
  | (none, c') => (.error ⟨l, .unterminatedString⟩, c')

def integer (l : Location) (first : Char) (c : Cursor) : Except ParseError Token × Cursor :=
  let (digits, c') := run Text.isDigit c
  match Text.readInteger (first :: digits) with
  | some n => (.ok ⟨.integer n, l⟩, c')
  | none => (.error ⟨l, .integerOverflow (String.ofList (first :: digits))⟩, c')

def word (l : Location) (first : Char) (c : Cursor) : Token × Cursor :=
  let (others, c') := run Scan.isNameChar c
  (⟨.word (String.ofList (first :: others)), l⟩, c')

/-- a token or a fault of a text in code, or the end of the input -/
def code (c : Cursor) : Except ParseError Token × Cursor :=
  match _h : c.next with
  | (none, c') => (.ok ⟨.endOfInput, c'.location⟩, c')
  | (some (ch, l), c') =>
    if ch = ' ' ∨ ch = '\t' ∨ ch = '\r' then code c'
    else if ch = '\n' then (.ok ⟨.symbol ':', l⟩, c')
    else if ch = '\'' then
      match (comment c').1 with
      | some t => (.ok t, (comment c').2)
      | none => code (comment c').2
    else if ch = '"' then string l c'
    else if Text.isDigit ch then integer l ch c'
    else if ch = '%' ∧ c'.peek = some '>' then
      (.ok (chunk c'.forward).1, (chunk c'.forward).2)
    else if Scan.isNameStart ch then (.ok (word l ch c').1, (word l ch c').2)
    else (.ok ⟨.symbol ch, l⟩, c')
termination_by c.rest.length
decreasing_by
  · exact Cursor.length_next_lt _h
  · exact Nat.lt_of_le_of_lt (length_comment_le c') (Cursor.length_next_lt _h)

/-- one call; behind a chunk the text goes on in code -/
def next (l : Lexer) : Except ParseError Token × Lexer :=
  match l.mode with
  | .code => ((code l.cursor).1, ⟨.code, (code l.cursor).2⟩)
  | .template => (.ok (chunk l.cursor).1, ⟨.code, (chunk l.cursor).2⟩)

/-! ## the loops are the scans -/

/-- no mark of two characters where a scan has found none -/
theorem not_mark {a b ch : Char} {cs : List Char}
    (h : ∀ tail, ch = a → cs = b :: tail → False) : ¬ (ch = a ∧ cs.head? = some b) := by
  rintro ⟨rfl, hpeek⟩
  obtain ⟨tail, rfl⟩ := List.head?_eq_some_iff.mp hpeek
  exact h tail rfl rfl

section

variable (name : String) (p : Position)

/-! ### chunks -/

theorem chunkText_nil : chunkText ⟨name, p, []⟩ = ([], ⟨name, p, []⟩) := by
  rw [chunkText]
  rfl

theorem chunkText_cons (ch : Char) (cs : List Char) :
    chunkText ⟨name, p, ch :: cs⟩ =
      if ch = '<' ∧ cs.head? = some '%' then ([], Cursor.forward ⟨name, p.advance ch, cs⟩)
      else (ch :: (chunkText ⟨name, p.advance ch, cs⟩).1,
        (chunkText ⟨name, p.advance ch, cs⟩).2) := by
  rw [chunkText]
  rfl

theorem chunkText_eq (cs : List Char) :
    chunkText ⟨name, p, cs⟩ = ((Scan.splitChunk cs).1,
      ⟨name, p.after ((Scan.splitChunk cs).1 ++ (Scan.splitChunk cs).2.1),
        (Scan.splitChunk cs).2.2⟩) := by
  fun_induction Scan.splitChunk cs generalizing p with
  | case1 => exact chunkText_nil name p
  | case2 rest =>
    rw [chunkText_cons, if_pos ⟨rfl, rfl⟩]
    rfl
  | case3 ch cs hmark text mark rest hsplit ih =>
    rw [chunkText_cons, if_neg (not_mark hmark), ih, hsplit]
    rfl

theorem chunk_eq (cs : List Char) :
    chunk ⟨name, p, cs⟩ = (⟨.chunk (String.ofList (Scan.splitChunk cs).1), p.locate name⟩,
      ⟨name, TokenStream.behind p (Scan.chunk cs), (Scan.chunk cs).rest⟩) := by
  rw [chunk, chunkText_eq]
  rfl

/-! ### strings -/

theorem stringValue_nil : stringValue ⟨name, p, []⟩ = (none, ⟨name, p, []⟩) := by
  rw [stringValue]
  rfl

theorem stringValue_cons (ch : Char) (cs : List Char) :
    stringValue ⟨name, p, ch :: cs⟩ =
      if ch = '"' then
        if cs.head? = some '"' then
          ((stringValue (Cursor.forward ⟨name, p.advance ch, cs⟩)).1.map ('"' :: ·),
            (stringValue (Cursor.forward ⟨name, p.advance ch, cs⟩)).2)
        else (some [], ⟨name, p.advance ch, cs⟩)
      else if ch = '\n' then (none, ⟨name, p.advance ch, cs⟩)
      else ((stringValue ⟨name, p.advance ch, cs⟩).1.map (ch :: ·),
        (stringValue ⟨name, p.advance ch, cs⟩).2) := by
  rw [stringValue]
  rfl

theorem stringValue_eq (cs : List Char) :
    stringValue ⟨name, p, cs⟩ = ((Scan.splitString cs).1,
      ⟨name, p.after (Scan.splitString cs).2.1, (Scan.splitString cs).2.2⟩) := by
  fun_induction Scan.splitString cs generalizing p with
  | case1 => exact stringValue_nil name p
  | case2 cs value taken rest hsplit ih =>
    rw [stringValue_cons, if_pos rfl, if_pos List.head?_cons, Cursor.forward, ih, hsplit]
    rfl
  | case3 cs hquote =>
    have hclosed : cs.head? ≠ some '"' := by
      intro hpeek
      obtain ⟨tail, rfl⟩ := List.head?_eq_some_iff.mp hpeek
      exact hquote tail rfl
    rw [stringValue_cons, if_pos rfl, if_neg hclosed]
    rfl
  | case4 cs => rw [stringValue_cons, if_neg (by decide), if_pos rfl]; rfl
  | case5 ch cs _ hquote hnewline value taken rest hsplit ih =>
    rw [stringValue_cons, if_neg hquote, if_neg hnewline, ih, hsplit]
    rfl

/-! ### runs -/

theorem run_nil (q : Char → Bool) : run q ⟨name, p, []⟩ = ([], ⟨name, p, []⟩) := by
  rw [run]
  rfl

theorem run_cons (q : Char → Bool) (ch : Char) (cs : List Char) :
    run q ⟨name, p, ch :: cs⟩ =
      if q ch then (ch :: (run q ⟨name, p.advance ch, cs⟩).1, (run q ⟨name, p.advance ch, cs⟩).2)
      else ([], ⟨name, p, ch :: cs⟩) := by
  rw [run]
  rfl

theorem run_eq (q : Char → Bool) (cs : List Char) :
    run q ⟨name, p, cs⟩
      = (cs.takeWhile q, ⟨name, p.after (cs.takeWhile q), cs.dropWhile q⟩) := by
  induction cs generalizing p with
  | nil => exact run_nil name p q
  | cons ch cs ih =>
    rw [run_cons, ih]
    cases hq : q ch with
    | true => rw [List.takeWhile_cons_of_pos hq, List.dropWhile_cons_of_pos hq]; rfl
    | false =>
      rw [List.takeWhile_cons_of_neg (by rw [hq]; decide),
        List.dropWhile_cons_of_neg (by rw [hq]; decide)]
      rfl

/-! ### comments -/

theorem comment_nil : comment ⟨name, p, []⟩ = (none, ⟨name, p, []⟩) := by
  rw [comment]
  rfl

theorem comment_cons (ch : Char) (cs : List Char) :
    comment ⟨name, p, ch :: cs⟩ =
      if ch = '\n' then (none, ⟨name, p, ch :: cs⟩)
      else if ch = '%' ∧ cs.head? = some '>' then
        (some (chunk (Cursor.forward ⟨name, p.advance ch, cs⟩)).1,
          (chunk (Cursor.forward ⟨name, p.advance ch, cs⟩)).2)
      else comment ⟨name, p.advance ch, cs⟩ := by
  rw [comment]
  rfl

/-! ### code -/

/-- what a scan reports, and the cursor behind it -/
def scanned (s : Scan) : Except ParseError Token × Cursor :=
  (TokenStream.located name p s, ⟨name, TokenStream.behind p s, s.rest⟩)

theorem scanned_behind (ch : Char) (s : Scan) :
    scanned name p (s.behind ch) = scanned name (p.advance ch) s := rfl

/-- the call goes on behind a comment, unless a chunk has ended it -/
def afterComment (r : Option Token × Cursor) : Except ParseError Token × Cursor :=
  match r.1 with
  | some t => (.ok t, r.2)
  | none => code r.2

theorem string_eq (cs : List Char) :
    string (p.locate name) ⟨name, p.advance '"', cs⟩ = scanned name p (Scan.string cs) := by
  rw [string, stringValue_eq, Scan.string]
  obtain ⟨value, taken, rest⟩ := Scan.splitString cs
  cases value <;> rfl

theorem integer_eq {ch : Char} (hd : Text.isDigit ch = true) (cs : List Char) :
    integer (p.locate name) ch ⟨name, p.advance ch, cs⟩
      = scanned name p (Scan.integer (ch :: cs)) := by
  rw [integer, run_eq, scanned, TokenStream.located, Scan.integer,
    List.takeWhile_cons_of_pos hd, List.dropWhile_cons_of_pos hd]
  show (match Text.readInteger (ch :: cs.takeWhile Text.isDigit) with | some _ => _ | none => _) = _
  cases Text.readInteger (ch :: cs.takeWhile Text.isDigit) <;> rfl

theorem word_eq {ch : Char} (hs : Scan.isNameStart ch = true) (cs : List Char) :
    ((.ok (word (p.locate name) ch ⟨name, p.advance ch, cs⟩).1,
      (word (p.locate name) ch ⟨name, p.advance ch, cs⟩).2) : Except ParseError Token × Cursor)
      = scanned name p (Scan.word (ch :: cs)) := by
  have hc := Scan.isNameChar_of_isNameStart hs
  rw [word, run_eq, scanned, TokenStream.located, Scan.word,
    List.takeWhile_cons_of_pos hc, List.dropWhile_cons_of_pos hc]
  rfl

theorem code_nil : code ⟨name, p, []⟩ = scanned name p Scan.endOfInput := by
  rw [code]
  rfl

theorem code_cons (ch : Char) (cs : List Char) :
    code ⟨name, p, ch :: cs⟩ =
      if ch = ' ' ∨ ch = '\t' ∨ ch = '\r' then code ⟨name, p.advance ch, cs⟩
      else if ch = '\n' then (.ok ⟨.symbol ':', p.locate name⟩, ⟨name, p.advance ch, cs⟩)
      else if ch = '\'' then afterComment (comment ⟨name, p.advance ch, cs⟩)
      else if ch = '"' then string (p.locate name) ⟨name, p.advance ch, cs⟩
      else if Text.isDigit ch then integer (p.locate name) ch ⟨name, p.advance ch, cs⟩
      else if ch = '%' ∧ cs.head? = some '>' then
        (.ok (chunk (Cursor.forward ⟨name, p.advance ch, cs⟩)).1,
          (chunk (Cursor.forward ⟨name, p.advance ch, cs⟩)).2)
      else if Scan.isNameStart ch then
        (.ok (word (p.locate name) ch ⟨name, p.advance ch, cs⟩).1,
          (word (p.locate name) ch ⟨name, p.advance ch, cs⟩).2)
      else (.ok ⟨.symbol ch, p.locate name⟩, ⟨name, p.advance ch, cs⟩) := by
  rw [code]
  rfl

/-- behind the start of a comment the call goes on as the scan does -/
theorem afterComment_eq (cs : List Char) :
    afterComment (comment ⟨name, p, cs⟩) = scanned name p (Scan.comment cs) := by
  fun_induction Scan.comment cs generalizing p with
  | case1 =>
    rw [comment_nil]
    exact code_nil name p
  | case2 cs =>
    rw [comment_cons, if_pos rfl]
    show code ⟨name, p, '\n' :: cs⟩ = _
    rw [code_cons, if_neg (by decide), if_pos rfl]
    rfl
  | case3 cs =>
    rw [comment_cons, if_neg (by decide), if_pos ⟨rfl, rfl⟩, Cursor.forward, chunk_eq]
    rfl
  | case4 ch cs hnewline hmark ih =>
    rw [comment_cons, if_neg hnewline, if_neg (not_mark hmark), ih, scanned_behind]

theorem code_eq (cs : List Char) : code ⟨name, p, cs⟩ = scanned name p (Scan.code cs) := by
  fun_induction Scan.code cs generalizing p with
  | case1 => exact code_nil name p
  | case2 cs =>
    rw [code_cons, if_neg (by decide), if_neg (by decide), if_neg (by decide), if_neg (by decide),
      if_neg (by decide), if_pos ⟨rfl, rfl⟩, Cursor.forward, chunk_eq]
    rfl
  | case3 ch cs _ hblank ih => rw [code_cons, if_pos hblank, ih, scanned_behind]
  | case4 cs _ hblank =>
    rw [code_cons, if_neg hblank, if_pos rfl]
    rfl
  | case5 cs _ hblank hnewline =>
    rw [code_cons, if_neg hblank, if_neg hnewline, if_pos rfl, afterComment_eq, scanned_behind]
  | case6 cs _ hblank hnewline hcomment =>
    rw [code_cons, if_neg hblank, if_neg hnewline, if_neg hcomment, if_pos rfl, string_eq]
  | case7 ch cs _ hblank hnewline hcomment hquote hdigit =>
    rw [code_cons, if_neg hblank, if_neg hnewline, if_neg hcomment, if_neg hquote, if_pos hdigit,
      integer_eq name p hdigit]
  | case8 ch cs hmark hblank hnewline hcomment hquote hdigit hstart =>
    rw [code_cons, if_neg hblank, if_neg hnewline, if_neg hcomment, if_neg hquote, if_neg hdigit,
      if_neg (not_mark hmark), if_pos hstart, word_eq name p hstart]
  | case9 ch cs hmark hblank hnewline hcomment hquote hdigit hstart =>
    rw [code_cons, if_neg hblank, if_neg hnewline, if_neg hcomment, if_neg hquote, if_neg hdigit,
      if_neg (not_mark hmark), if_neg hstart]
    rfl

end

/-! ## calls -/

/-- what is left of the text, scanned for the next report -/
def scan (l : Lexer) : Scan :=
  match l.mode with
  | .code => Scan.code l.cursor.rest
  | .template => Scan.chunk l.cursor.rest

/-- **One call** reports what scanning the rest of the text finds, at the cursor's place behind the
characters that it goes past, and leaves the cursor behind those that it takes. -/
theorem next_eq (l : Lexer) :
    l.next = (TokenStream.located l.cursor.sourceName l.cursor.position l.scan,
      ⟨.code,
        ⟨l.cursor.sourceName, TokenStream.behind l.cursor.position l.scan, l.scan.rest⟩⟩) := by
  obtain ⟨mode, name, p, cs⟩ := l
  cases mode with
  | code => rw [next, code_eq]; rfl
  | template => rw [next, chunk_eq]; rfl

/-- the reports that are still to come -/
def stream (l : Lexer) : TokenStream :=
  match l.mode with
  | .code => TokenStream.ofCode l.cursor.sourceName l.cursor.position l.cursor.rest
  | .template => TokenStream.ofTemplate l.cursor.sourceName l.cursor.position l.cursor.rest

/-- **A lexer reports what its token stream holds**, and stands for what is left of the stream. -/
theorem next_stream (l : Lexer) : l.stream.next = (l.next.1, l.next.2.stream) := by
  obtain ⟨mode, name, p, cs⟩ := l
  rw [next_eq]
  cases mode with
  | template => rfl
  | code =>
    show (TokenStream.ofCode name p cs).next = (TokenStream.located name p (Scan.code cs),
      TokenStream.ofCode name (TokenStream.behind p (Scan.code cs)) (Scan.code cs).rest)
    rw [TokenStream.ofCode]
    split
    · next hend =>
      rw [Scan.eq_of_atEnd hend, TokenStream.ofCode_nil]
      show _ = (_, TokenStream.mk [] ((p.after (cs ++ [])).locate name))
      rw [List.append_nil]
      rfl
    · rfl

end Lexer

end PageScript
