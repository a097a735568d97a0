import PageScript.Proofs.Program.Canonical
import PageScript.Token.Stream

/-!
# The tokens of a text, without their places

`Scan.kinds` lists what scanning a text reports, and nothing of where.  It is what a token stream
holds up to locations (`kinds_ofText`), and it has one equation for every way in which a text can
start: `kinds_blank`, `kinds_newline`, `kinds_sign`, `kinds_word`, `kinds_integer`,
`kinds_string`, `kinds_chunk`.

A word, an integer or a string ends only where the text behind it does not go on with a name
character or a quote (`Breaks`); all other tokens end by themselves.
-/

namespace PageScript

/-! ## kinds in any letter case -/

/-- the same token, or two spellings of one word -/
def TokenKind.Alike (a b : TokenKind) : Prop :=
  a = b ∨ ∃ v w, a = .word v ∧ b = .word w ∧ Text.sameWord v w = true

theorem TokenKind.Alike.refl (kind : TokenKind) : kind.Alike kind := .inl rfl

theorem TokenKind.Alike.word {v w : String} (h : Text.fold v = Text.fold w) :
    (TokenKind.word v).Alike (.word w) :=
  .inr ⟨v, w, rfl, rfl, (Text.sameWord_iff v w).mpr h⟩

/-! ## reports without locations -/

def reportKind : Except ParseError Token → Except ParseFault TokenKind
  | .ok t => .ok t.kind
  | .error e => .error e.fault

/-- the reports of a stream without their locations -/
def TokenStream.kinds (s : TokenStream) : List (Except ParseFault TokenKind) :=
  s.pending.map reportKind

/-- what scanning a text that starts in code reports, without locations -/
def Scan.kinds (cs : List Char) : List (Except ParseFault TokenKind) :=
  if _h : (Scan.code cs).atEnd then []
  else (Scan.code cs).result :: Scan.kinds (Scan.code cs).rest
termination_by cs.length
decreasing_by
  exact Scan.code_shorter cs (by simpa using _h)

theorem TokenStream.reportKind_located (name : String) (p : Position) (s : Scan) :
    reportKind (located name p s) = s.result := by
  unfold located
  cases s.result with
  | ok kind => rfl
  | error fault => rfl

theorem TokenStream.kinds_report (r : Except ParseError Token) (s : TokenStream) :
    (s.report r).kinds = reportKind r :: s.kinds := rfl

theorem TokenStream.kinds_ofCode (name : String) (p : Position) (cs : List Char) :
    (ofCode name p cs).kinds = Scan.kinds cs := by
  fun_induction ofCode name p cs with
  | case1 p cs h =>
    rw [Scan.kinds, dif_pos h]
    rfl
  | case2 p cs h ih =>
    rw [Scan.kinds, dif_neg h, kinds_report, reportKind_located, ih]

theorem TokenStream.kinds_ofText (name text : String) :
    (ofText name .code text).kinds = Scan.kinds text.toList :=
  kinds_ofCode name .start text.toList

/-! ## one step of a stream -/

theorem TokenStream.ofCode_nil (name : String) (p : Position) :
    ofCode name p [] = ⟨[], p.locate name⟩ := by
  rw [ofCode]
  exact dif_pos (show (Scan.code []).atEnd = true from rfl)

theorem TokenStream.ofCode_of_code {name : String} {p : Position} {cs : List Char}
    {kind : TokenKind} {body rest : List Char}
    (h : Scan.code cs = ⟨[], body, .ok kind, rest⟩) (hk : kind ≠ .endOfInput) :
    ofCode name p cs = (ofCode name (p.after body) rest).report (.ok ⟨kind, p.locate name⟩) := by
  have hend : ¬ (Scan.code cs).atEnd = true := by
    rw [h]
    cases kind with
    | endOfInput => exact absurd rfl hk
    | _ => simp [Scan.atEnd]
  rw [ofCode, dif_neg hend, h]
  rfl

namespace Scan

/-! ## one step of the scan -/

theorem kinds_nil : kinds [] = [] := by
  rw [kinds, dif_pos (show (code []).atEnd = true from rfl)]

theorem kinds_of_code {cs rest : List Char} {kind : TokenKind} (hr : (code cs).result = .ok kind)
    (hk : kind ≠ .endOfInput) (hrest : (code cs).rest = rest) :
    kinds cs = .ok kind :: kinds rest := by
  have hend : ¬ (code cs).atEnd = true := by
    unfold atEnd
    rw [hr]
    cases kind with
    | endOfInput => exact absurd rfl hk
    | _ => simp
  rw [kinds, dif_neg hend, hr, hrest]

theorem kinds_of_behind {cs cs' : List Char} {c : Char} (h : code cs = (code cs').behind c) :
    kinds cs = kinds cs' := by
  have hend : (code cs).atEnd = (code cs').atEnd := by rw [h]; rfl
  have hres : (code cs).result = (code cs').result := by rw [h]; rfl
  have hrest : (code cs).rest = (code cs').rest := by rw [h]; rfl
  rw [kinds, kinds.eq_def cs']
  simp only [hend, hres, hrest]

/-- a text that does not start with the mark that leaves code -/
theorem code_cons {c : Char} (hc : c ≠ '%') (cs : List Char) :
    code (c :: cs) =
      if c = ' ' ∨ c = '\t' ∨ c = '\r' then (code cs).behind c
      else if c = '\n' then symbol c ':' cs
      else if c = '\'' then (comment cs).behind c
      else if c = '"' then string cs
      else if Text.isDigit c then integer (c :: cs)
      else if isNameStart c then word (c :: cs)
      else symbol c c cs := by
  apply code.eq_3
  intro cs' h _
  exact hc h

theorem kinds_blank (cs : List Char) : kinds (' ' :: cs) = kinds cs := by
  apply kinds_of_behind
  rw [code_cons (by decide), if_pos (Or.inl rfl)]

theorem kinds_blanks (n : Nat) (cs : List Char) :
    kinds (List.replicate n ' ' ++ cs) = kinds cs := by
  induction n with
  | zero => rfl
  | succ n ih => rw [List.replicate_succ, List.cons_append, kinds_blank, ih]

theorem kinds_newline (cs : List Char) : kinds ('\n' :: cs) = .ok (.symbol ':') :: kinds cs := by
  have h : code ('\n' :: cs) = symbol '\n' ':' cs := by
    rw [code_cons (by decide), if_neg (by decide), if_pos rfl]
  apply kinds_of_code
  · rw [h]; rfl
  · simp
  · rw [h]; rfl

/-! ## signs -/

/-- a character that is a token by itself, whatever follows -/
def isSign (c : Char) : Bool :=
  !(" \t\r\n'\"%".toList.contains c) && !Text.isDigit c && !isNameStart c

theorem code_of_isSign {c : Char} (hc : isSign c = true) (cs : List Char) :
    code (c :: cs) = symbol c c cs := by
  simp [isSign] at hc
  obtain ⟨⟨⟨h1, h2, h3, h4, h5, h6, h7⟩, h8⟩, h9⟩ := hc
  rw [code_cons h7]
  simp [*]

theorem kinds_sign {c : Char} (hc : isSign c = true) (cs : List Char) :
    kinds (c :: cs) = .ok (.symbol c) :: kinds cs := by
  have h := code_of_isSign hc cs
  apply kinds_of_code
  · rw [h]; rfl
  · simp
  · rw [h]; rfl

/-! ## tokens that end where the text breaks -/

/-- the text does not go on with a name character or a quote -/
def Breaks : List Char → Prop
  | [] => True
  | c :: _ => isNameChar c = false ∧ c ≠ '"'

/-- a run of characters of a class ends where a character outside the class comes next -/
theorem span_of_all {p : Char → Bool} {a cs : List Char} (ha : ∀ c ∈ a, p c = true)
    (hcs : ∀ c ∈ cs.head?, p c = false) :
    (a ++ cs).takeWhile p = a ∧ (a ++ cs).dropWhile p = cs := by
  rw [List.takeWhile_append_of_pos ha, List.dropWhile_append_of_pos ha]
  cases cs with
  | nil => exact ⟨List.append_nil a, rfl⟩
  | cons c cs =>
    have hc : p c = false := hcs c rfl
    simp [hc]

theorem Breaks.head {cs : List Char} (h : Breaks cs) : ∀ c ∈ cs.head?, isNameChar c = false := by
  intro c hc
  cases cs with
  | nil => cases hc
  | cons c' cs =>
    obtain rfl : c' = c := Option.some.inj hc
    exact h.1

theorem isNameChar_of_isDigit {c : Char} (h : Text.isDigit c = true) : isNameChar c = true := by
  have hd : c.isDigit = true := by
    simp only [Text.isDigit, Bool.and_eq_true, decide_eq_true_eq] at h
    simp only [Char.isDigit, Bool.and_eq_true, decide_eq_true_eq]
    exact h
  simp [isNameChar, Char.isAlphanum, hd]

/-- letters and the underscore, by code point -/
theorem isNameStart_iff (c : Char) :
    isNameStart c = true
      ↔ (65 ≤ c.toNat ∧ c.toNat ≤ 90) ∨ (97 ≤ c.toNat ∧ c.toNat ≤ 122) ∨ c = '_' := by
  show ((decide ('A'.val ≤ c.val ∧ c.val ≤ 'Z'.val)
    || ('a'.val ≤ c.val && c.val ≤ 'z'.val)) || c == '_') = true ↔ _
  simp only [Bool.or_eq_true, Bool.and_eq_true, decide_eq_true_eq, beq_iff_eq, or_assoc]
  rfl

theorem isNameStart_eq_false_of_isDigit {c : Char} (h : Text.isDigit c = true) :
    isNameStart c = false := by
  simp only [Text.isDigit, Bool.and_eq_true, decide_eq_true_eq] at h
  have h9 : c.toNat ≤ 57 := h.2
  rw [← Bool.not_eq_true, isNameStart_iff]
  rintro (hc | hc | rfl)
  · omega
  · omega
  · exact absurd h9 (by decide)

theorem code_of_isNameStart {c : Char} (h : isNameStart c = true) (cs : List Char) :
    code (c :: cs) = word (c :: cs) := by
  have hne : ∀ d, isNameStart d = false → c ≠ d := by
    rintro d hd rfl
    rw [h] at hd
    cases hd
  have hdigit : ¬ Text.isDigit c = true := by
    intro hd
    rw [isNameStart_eq_false_of_isDigit hd] at h
    cases h
  rw [code_cons (hne '%' (by decide)), if_neg, if_neg (hne '\n' (by decide)),
    if_neg (hne '\'' (by decide)), if_neg (hne '"' (by decide)), if_neg hdigit, if_pos h]
  rintro (hc | hc | hc)
  · exact hne ' ' (by decide) hc
  · exact hne '\t' (by decide) hc
  · exact hne '\r' (by decide) hc

theorem code_of_isDigit {c : Char} (h : Text.isDigit c = true) (cs : List Char) :
    code (c :: cs) = integer (c :: cs) := by
  have hne : ∀ d, Text.isDigit d = false → c ≠ d := by
    rintro d hd rfl
    rw [h] at hd
    cases hd
  rw [code_cons (hne '%' (by decide)), if_neg, if_neg (hne '\n' (by decide)),
    if_neg (hne '\'' (by decide)), if_neg (hne '"' (by decide)), if_pos h]
  rintro (hc | hc | hc)
  · exact hne ' ' (by decide) hc
  · exact hne '\t' (by decide) hc
  · exact hne '\r' (by decide) hc

theorem code_of_isWord {w : String} (hw : isWord w = true) {cs : List Char} (hcs : Breaks cs) :
    code (w.toList ++ cs) = ⟨[], w.toList, .ok (.word w), cs⟩ := by
  unfold isWord at hw
  cases hl : w.toList with
  | nil => rw [hl] at hw; cases hw
  | cons c as =>
    rw [hl] at hw
    simp only [Bool.and_eq_true, List.all_eq_true] at hw
    obtain ⟨hstart, has⟩ := hw
    have hc : isNameChar c = true := isNameChar_of_isNameStart hstart
    obtain ⟨h1, h2⟩ := span_of_all (a := c :: as) (List.forall_mem_cons.mpr ⟨hc, has⟩) hcs.head
    have hcode : code (c :: as ++ cs) = word (c :: as ++ cs) := code_of_isNameStart hstart _
    rw [hcode, word, h1, h2, ← hl, String.ofList_toList]

theorem kinds_word {w : String} (hw : isWord w = true) {cs : List Char} (hcs : Breaks cs) :
    kinds (w.toList ++ cs) = .ok (.word w) :: kinds cs := by
  have h := code_of_isWord hw hcs
  apply kinds_of_code
  · rw [h]
  · simp
  · rw [h]

/-! ## integers -/

theorem readInteger_digits {ds : List Char} {n : Nat} (hne : ds ≠ [])
    (hd : ∀ c ∈ ds, Text.isDigit c = true) (hv : Text.digitsValue ds = n) :
    Text.readInteger ds = Text.narrow n := by
  have hread : Text.readNatural ds = some n := by
    unfold Text.readNatural
    rw [if_pos, hv]
    simp only [Bool.and_eq_true, Bool.not_eq_true', List.isEmpty_eq_false_iff, List.all_eq_true]
    exact ⟨hne, hd⟩
  unfold Text.readInteger
  split
  · next cs => exact absurd (hd '+' List.mem_cons_self) (by decide)
  · next cs => exact absurd (hd '-' List.mem_cons_self) (by decide)
  · rw [hread]; rfl

theorem isDigit_of_mem_toDigits {c : Char} {n : Nat} (h : c ∈ Nat.toDigits 10 n) :
    Text.isDigit c = true := by
  have hd := Nat.isDigit_of_mem_toDigits (by decide) (by decide) h
  simp only [Char.isDigit, Bool.and_eq_true, decide_eq_true_eq] at hd
  simp only [Text.isDigit, Bool.and_eq_true, decide_eq_true_eq]
  exact hd

theorem decimal_toList {n : Int64} (hn : 0 ≤ n) :
    (Text.decimal n).toList = Nat.toDigits 10 n.toInt.toNat := by
  have h : n.toInt = Int.ofNat n.toInt.toNat := by
    have h0 : 0 ≤ n.toInt := Int64.le_iff_toInt_le.mp hn
    exact (Int.toNat_of_nonneg h0).symm
  unfold Text.decimal
  rw [h, Int.toString_eq_repr]
  exact Nat.toList_repr

theorem readInteger_decimal {n : Int64} (hn : 0 ≤ n) :
    Text.readInteger (Text.decimal n).toList = some n := by
  have h0 : 0 ≤ n.toInt := Int64.le_iff_toInt_le.mp hn
  rw [decimal_toList hn, readInteger_digits Nat.toDigits_ne_nil (fun _ => isDigit_of_mem_toDigits)
    Nat.ofDigitChars_ten_toDigits, Int.toNat_of_nonneg h0, Text.narrow_toInt]

theorem code_of_decimal {n : Int64} (hn : 0 ≤ n) {cs : List Char} (hcs : Breaks cs) :
    code ((Text.decimal n).toList ++ cs)
      = ⟨[], (Text.decimal n).toList, .ok (.integer n), cs⟩ := by
  have hread := readInteger_decimal hn
  have hds : ∀ c ∈ (Text.decimal n).toList, Text.isDigit c = true := by
    rw [decimal_toList hn]
    exact fun _ => isDigit_of_mem_toDigits
  have hhead : ∀ c ∈ cs.head?, Text.isDigit c = false := by
    intro c hc
    cases hd : Text.isDigit c with
    | false => rfl
    | true =>
      have := hcs.head c hc
      rw [isNameChar_of_isDigit hd] at this
      cases this
  obtain ⟨h1, h2⟩ := span_of_all hds hhead
  cases hl : (Text.decimal n).toList with
  | nil => exact absurd ((decimal_toList hn).symm.trans hl) Nat.toDigits_ne_nil
  | cons d ds =>
    rw [hl] at h1 h2 hread hds
    have hcode : code (d :: ds ++ cs) = integer (d :: ds ++ cs) :=
      code_of_isDigit (hds d List.mem_cons_self) _
    rw [hcode, integer, h1, h2, hread]

theorem kinds_integer {n : Int64} (hn : 0 ≤ n) {cs : List Char} (hcs : Breaks cs) :
    kinds ((Text.decimal n).toList ++ cs) = .ok (.integer n) :: kinds cs := by
  have h := code_of_decimal hn hcs
  apply kinds_of_code
  · rw [h]
  · simp
  · rw [h]

/-! ## strings -/

/-- the inside of a string literal, with its quotes doubled -/
def doubled (cs : List Char) : List Char :=
  cs.flatMap fun c => if c = '"' then ['"', '"'] else [c]

theorem splitString_doubled {s cs : List Char} (hs : '\n' ∉ s) (hcs : cs.head? ≠ some '"') :
    splitString (doubled s ++ '"' :: cs) = (some s, doubled s ++ ['"'], cs) := by
  induction s with
  | nil =>
    show splitString ('"' :: cs) = _
    cases cs with
    | nil => rfl
    | cons c cs =>
      have hc : c ≠ '"' := fun h => hcs (congrArg some h)
      rw [splitString.eq_3]
      · rfl
      · rintro cs' ⟨rfl, rfl⟩
        exact hc rfl
  | cons c s ih =>
    have ih' := ih (fun h => hs (List.mem_cons_of_mem c h))
    by_cases hc : c = '"'
    · subst hc
      show splitString ('"' :: '"' :: (doubled s ++ '"' :: cs)) = _
      rw [splitString.eq_2, ih']
      rfl
    · have hn : c ≠ '\n' := fun h => hs (h ▸ List.mem_cons_self)
      have hd : doubled (c :: s) = c :: doubled s := by
        show (if c = '"' then ['"', '"'] else [c]) ++ doubled s = _
        rw [if_neg hc]
        rfl
      rw [hd, List.cons_append, splitString.eq_5 _ _ (fun _ h _ => hc h) hc hn, ih']
      rfl

theorem quoted_toList (s : String) :
    (Text.quoted s).toList = '"' :: (doubled s.toList ++ ['"']) := by
  simp [Text.quoted, doubled]

theorem kinds_string {s : String} (hs : '\n' ∉ s.toList) {cs : List Char} (hcs : Breaks cs) :
    kinds ((Text.quoted s).toList ++ cs) = .ok (.string s) :: kinds cs := by
  have hquote : cs.head? ≠ some '"' := by
    cases cs with
    | nil => simp
    | cons c cs => exact fun h => hcs.2 (Option.some.inj h)
  have hsplit := splitString_doubled hs hquote
  have hcode : code ('"' :: (doubled s.toList ++ '"' :: cs))
      = string (doubled s.toList ++ '"' :: cs) := by
    rw [code_cons (by decide), if_neg (by decide), if_neg (by decide), if_neg (by decide),
      if_pos rfl]
  rw [quoted_toList, List.cons_append, List.append_assoc, List.singleton_append]
  apply kinds_of_code
  · simp only [hcode, string, hsplit, String.ofList_toList]
  · simp
  · rw [hcode, string, hsplit]

/-! ## chunks -/

theorem splitChunk_text {s : List Char} (hs : opensCode s = false) (cs : List Char) :
    splitChunk (s ++ '<' :: '%' :: cs) = (s, ['<', '%'], cs) := by
  fun_induction opensCode s with
  | case1 => rfl
  | case2 => cases hs
  | case3 c s hne ih =>
    have hne' : ∀ rest, c = '<' → s ++ '<' :: '%' :: cs = '%' :: rest → False := by
      intro rest hc h
      cases s with
      | nil => exact absurd (List.cons.inj h).1 (by decide)
      | cons d s =>
        obtain ⟨rfl, -⟩ := List.cons.inj h
        exact hne s hc rfl
    rw [List.cons_append, splitChunk.eq_3 _ _ hne', ih hs]

theorem kinds_chunk {text : String} (ht : opensCode text.toList = false) (cs : List Char) :
    kinds ('%' :: '>' :: (text.toList ++ '<' :: '%' :: cs)) = .ok (.chunk text) :: kinds cs := by
  have hsplit := splitChunk_text ht cs
  have hcode : code ('%' :: '>' :: (text.toList ++ '<' :: '%' :: cs))
      = ((chunk (text.toList ++ '<' :: '%' :: cs)).behind '>').behind '%' := rfl
  apply kinds_of_code
  · rw [hcode]
    show (chunk (text.toList ++ '<' :: '%' :: cs)).result = _
    simp only [chunk, hsplit, String.ofList_toList]
  · simp
  · rw [hcode]
    show (chunk (text.toList ++ '<' :: '%' :: cs)).rest = _
    rw [chunk, hsplit]

end Scan

/-! ## what a scan can report -/

/-- a token that scanning can report in front of the end -/
def TokenKind.lexical : TokenKind → Bool
  | .word spelling => isWord spelling
  | .symbol sign => !Scan.isNameStart sign
  | .integer n => decide (0 ≤ n)
  | .string s => !s.toList.contains '\n'
  | .chunk text => !opensCode text.toList
  | .endOfInput => false

namespace Scan

/-- the scan reports a fault, the end, or a token that scanning can report -/
def Lexical (s : Scan) : Prop :=
  ∀ kind, s.result = .ok kind → kind ≠ .endOfInput → kind.lexical = true

theorem lexical_behind {c : Char} {s : Scan} (h : s.Lexical) : (s.behind c).Lexical := h

theorem lexical_symbol (c : Char) {sign : Char} (hs : isNameStart sign = false) (cs : List Char) :
    (symbol c sign cs).Lexical := by
  intro kind h _
  obtain rfl := Except.ok.inj h
  show (!isNameStart sign) = true
  rw [hs]
  rfl

theorem lexical_endOfInput : endOfInput.Lexical := by
  intro kind h hne
  exact absurd (Except.ok.inj h).symm hne

theorem head?_splitChunk {cs : List Char} {c : Char} (h : (splitChunk cs).1.head? = some c) :
    cs.head? = some c := by
  unfold splitChunk at h
  split at h
  · cases h
  · cases h
  · exact h

theorem opensCode_splitChunk (cs : List Char) : opensCode (splitChunk cs).1 = false := by
  fun_induction splitChunk cs with
  | case1 => rfl
  | case2 => rfl
  | case3 c cs hne text mark rest heq ih =>
    rw [heq] at ih
    show opensCode (c :: text) = false
    rw [opensCode.eq_3, ih]
    intro tail hc htail
    have hhead : (splitChunk cs).1.head? = some '%' := by rw [heq, htail]; rfl
    cases cs with
    | nil => cases hhead
    | cons d cs =>
      obtain rfl := Option.some.inj (head?_splitChunk hhead)
      exact hne cs hc rfl

theorem lexical_chunk (cs : List Char) : (chunk cs).Lexical := by
  intro kind h _
  obtain rfl := Except.ok.inj h
  show (!opensCode (String.ofList (splitChunk cs).1).toList) = true
  rw [String.toList_ofList, opensCode_splitChunk]
  rfl

theorem newline_not_mem_splitString {cs value : List Char} (h : (splitString cs).1 = some value) :
    '\n' ∉ value := by
  fun_induction splitString cs generalizing value with
  | case1 => cases h
  | case2 cs v taken rest heq ih =>
    obtain ⟨u, hu, rfl⟩ := Option.map_eq_some_iff.mp h
    rw [heq] at ih
    simpa using ih hu
  | case3 cs _ =>
    obtain rfl := Option.some.inj h
    simp
  | case4 => cases h
  | case5 c cs _ _ hc v taken rest heq ih =>
    obtain ⟨u, hu, rfl⟩ := Option.map_eq_some_iff.mp h
    rw [heq] at ih
    simpa using ⟨fun e => hc e.symm, ih hu⟩

theorem lexical_string (cs : List Char) : (string cs).Lexical := by
  intro kind h _
  unfold string at h
  cases hs : (splitString cs).1 with
  | none =>
    simp only [hs] at h
    cases h
  | some v =>
    simp only [hs] at h
    obtain rfl := Except.ok.inj h
    have hv : '\n' ∉ v := newline_not_mem_splitString hs
    simpa [TokenKind.lexical] using hv

theorem lexical_word {c : Char} (hc : isNameStart c = true) (cs : List Char) :
    (word (c :: cs)).Lexical := by
  intro kind h _
  obtain rfl := Except.ok.inj h
  have hnc := isNameChar_of_isNameStart hc
  show isWord (String.ofList ((c :: cs).takeWhile isNameChar)) = true
  unfold isWord
  rw [String.toList_ofList, List.takeWhile_cons_of_pos hnc]
  simp only [hc, Bool.true_and, List.all_eq_true]
  intro d hd
  exact List.all_eq_true.mp List.all_takeWhile d hd

theorem narrow_nonneg {n : Nat} {v : Int64} (h : Text.narrow n = some v) : 0 ≤ v := by
  rw [Int64.le_iff_toInt_le, Text.narrow_eq_some_iff.mp h]
  exact Int.natCast_nonneg n

theorem lexical_integer {c : Char} (hc : Text.isDigit c = true) (cs : List Char) :
    (integer (c :: cs)).Lexical := by
  intro kind h _
  have hne : (c :: cs).takeWhile Text.isDigit ≠ [] := by
    rw [List.takeWhile_cons_of_pos hc]
    simp
  have hds : ∀ d ∈ (c :: cs).takeWhile Text.isDigit, Text.isDigit d = true :=
    List.all_eq_true.mp List.all_takeWhile
  simp only [integer, readInteger_digits hne hds rfl] at h
  split at h
  · next v hv =>
    obtain rfl := Except.ok.inj h
    exact decide_eq_true (narrow_nonneg hv)
  · cases h

theorem lexical_comment (cs : List Char) : (comment cs).Lexical := by
  fun_induction comment cs with
  | case1 => exact lexical_endOfInput
  | case2 => exact lexical_symbol _ (by decide) _
  | case3 => exact lexical_behind (lexical_behind (lexical_chunk _))
  | case4 c cs _ _ ih => exact lexical_behind ih

theorem lexical_code (cs : List Char) : (code cs).Lexical := by
  fun_induction code cs with
  | case1 => exact lexical_endOfInput
  | case2 => exact lexical_behind (lexical_behind (lexical_chunk _))
  | case3 c cs _ _ ih => exact lexical_behind ih
  | case4 => exact lexical_symbol _ (by decide) _
  | case5 => exact lexical_behind (lexical_comment _)
  | case6 => exact lexical_string _
  | case7 c cs _ _ _ _ _ hd => exact lexical_integer hd cs
  | case8 c cs _ _ _ _ _ _ hn => exact lexical_word hn cs
  | case9 c cs _ _ _ _ _ _ hn => exact lexical_symbol c (Bool.not_eq_true _ ▸ hn) cs

theorem lexical_of_mem_kinds {cs : List Char} {kind : TokenKind} (h : .ok kind ∈ kinds cs) :
    kind.lexical = true := by
  fun_induction kinds cs with
  | case1 => cases h
  | case2 cs hend ih =>
    rcases List.mem_cons.mp h with heq | hmem
    · refine lexical_code cs kind heq.symm ?_
      rintro rfl
      exact hend (by rw [atEnd, ← heq])
    · exact ih hmem

end Scan

/-- all tokens of a stream are such as scanning can report -/
def TokenStream.Lexical (s : TokenStream) : Prop :=
  ∀ kind, .ok kind ∈ s.kinds → kind.lexical = true

theorem TokenStream.lexical_ofText (name : String) (mode : Mode) (text : String) :
    (ofText name mode text).Lexical := by
  intro kind h
  cases mode with
  | code =>
    rw [kinds_ofText] at h
    exact Scan.lexical_of_mem_kinds h
  | template =>
    change .ok kind ∈ (ofTemplate name .start text.toList).kinds at h
    rw [ofTemplate, kinds_report, reportKind_located, kinds_ofCode] at h
    rcases List.mem_cons.mp h with heq | hmem
    · refine Scan.lexical_chunk text.toList kind heq.symm ?_
      rintro rfl
      cases heq
    · exact Scan.lexical_of_mem_kinds hmem

theorem TokenStream.Lexical.head {s : TokenStream} {t : Token}
    (h : (s.report (.ok t)).Lexical) : t.kind.lexical = true :=
  h t.kind List.mem_cons_self

theorem TokenStream.Lexical.tail {s : TokenStream} {r : Except ParseError Token}
    (h : (s.report r).Lexical) : s.Lexical :=
  fun kind hk => h kind (List.mem_cons_of_mem _ hk)

end PageScript
