import PageScript.Proofs.Token.Stepwise
import PageScript.Proofs.Value.Numerals

/-!
# What the characters of a text are for

Every character of a text belongs to one scan.  What a scan takes is the spelling of its result,
from the first character on; what it goes past in front of that are blanks, a comment, and the mark
that leaves code if the result is a chunk.

* `Scan.Spells`         the spellings of tokens and faults;
* `Scan.Idle`           blanks, and a comment behind them;
* `Scan.spells_code`    a scan takes a spelling of its result;
* `Scan.leads_code`     a scan goes past nothing else than blanks, comments and the mark;
* `Scan.rest_code_eq_nil`   a scan that takes nothing leaves nothing.
-/

namespace PageScript.Scan

/-! ## spellings -/

/-- the characters that a token or a fault is read from -/
inductive Spells : Except ParseFault TokenKind → List Char → Prop
  | word {w : String} (h : isWord w = true) : Spells (.ok (.word w)) w.toList
  /-- the end of a line separates statements -/
  | lineEnd : Spells (.ok (.symbol ':')) ['\n']
  | symbol (sign : Char) : Spells (.ok (.symbol sign)) [sign]
  | integer {ds : List Char} {n : Int64} (h : Text.IsDigits ds)
      (hn : Text.readInteger ds = some n) : Spells (.ok (.integer n)) ds
  | overflow {ds : List Char} (h : Text.IsDigits ds) (hn : Text.readInteger ds = none) :
      Spells (.error (.integerOverflow (String.ofList ds))) ds
  | string {s : String} (h : '\n' ∉ s.toList) : Spells (.ok (.string s)) (Text.quoted s).toList
  /-- a quote, and what could go on as a string literal up to the end of the line or of the input;
  the line feed is taken -/
  | unterminated {s ending : List Char} (h : '\n' ∉ s) (he : ending = [] ∨ ending = ['\n']) :
      Spells (.error .unterminatedString) ('"' :: (doubled s ++ ending))
  /-- the mark behind a chunk is taken -/
  | chunk (text : String) {mark : List Char} (h : mark = [] ∨ mark = ['<', '%']) :
      Spells (.ok (.chunk text)) (text.toList ++ mark)
  | endOfInput : Spells (.ok .endOfInput) []

theorem spells_chunk (cs : List Char) : Spells (chunk cs).result (chunk cs).body := by
  have hmark : (splitChunk cs).2.1 = [] ∨ (splitChunk cs).2.1 = ['<', '%'] := by
    fun_induction splitChunk cs with
    | case1 => exact .inl rfl
    | case2 => exact .inr rfl
    | case3 c cs _ text mark rest hsplit ih => rwa [hsplit] at ih
  have h := Spells.chunk (String.ofList (splitChunk cs).1) hmark
  rwa [String.toList_ofList] at h

/-- what is taken behind an opening quote, by the value if the literal is closed -/
inductive Inside : Option (List Char) → List Char → Prop
  | closed {s : List Char} (h : '\n' ∉ s) : Inside (some s) (doubled s ++ ['"'])
  | unclosed {s ending : List Char} (h : '\n' ∉ s) (he : ending = [] ∨ ending = ['\n']) :
      Inside none (doubled s ++ ending)

theorem Inside.cons {value : Option (List Char)} {taken : List Char} (h : Inside value taken)
    {c : Char} (hc : c ≠ '\n') : Inside (value.map (c :: ·)) (doubled [c] ++ taken) := by
  have hdoubled : ∀ s, doubled (c :: s) = doubled [c] ++ doubled s := fun s => by simp [doubled]
  have hmem : ∀ {s}, '\n' ∉ s → '\n' ∉ c :: s := fun hs => by simp [hs, hc.symm]
  cases h with
  | closed hs =>
    rw [← List.append_assoc, ← hdoubled]
    exact .closed (hmem hs)
  | unclosed hs he =>
    rw [← List.append_assoc, ← hdoubled]
    exact .unclosed (hmem hs) he

theorem inside_splitString (cs : List Char) : Inside (splitString cs).1 (splitString cs).2.1 := by
  fun_induction splitString cs with
  | case1 => exact .unclosed (s := []) List.not_mem_nil (.inl rfl)
  | case2 cs value taken rest hsplit ih =>
    rw [hsplit] at ih
    exact ih.cons (by decide)
  | case3 => exact .closed (s := []) List.not_mem_nil
  | case4 => exact .unclosed (s := []) List.not_mem_nil (.inr rfl)
  | case5 c cs _ hquote hnewline value taken rest hsplit ih =>
    rw [hsplit] at ih
    have h := ih.cons hnewline
    rwa [doubled, List.flatMap_singleton, if_neg hquote] at h

theorem spells_string (cs : List Char) : Spells (string cs).result (string cs).body := by
  have h := inside_splitString cs
  rw [string]
  generalize splitString cs = split at h ⊢
  obtain ⟨value, taken, rest⟩ := split
  cases h with
  | @closed s hs =>
    have hspelled := Spells.string (s := String.ofList s) (by rwa [String.toList_ofList])
    rwa [quoted_toList, String.toList_ofList] at hspelled
  | unclosed hs he => exact .unterminated hs he

theorem spells_integer {c : Char} (hc : Text.isDigit c = true) (cs : List Char) :
    Spells (integer (c :: cs)).result (integer (c :: cs)).body := by
  have hdigits : Text.IsDigits ((c :: cs).takeWhile Text.isDigit) :=
    ⟨by simp [hc], List.all_eq_true.mp List.all_takeWhile⟩
  rw [integer]
  cases hread : Text.readInteger ((c :: cs).takeWhile Text.isDigit) with
  | none => exact .overflow hdigits hread
  | some n => exact .integer hdigits hread

theorem spells_word {c : Char} (hc : isNameStart c = true) (cs : List Char) :
    Spells (word (c :: cs)).result (word (c :: cs)).body := by
  have hword := lexical_word hc cs _ rfl nofun
  have h := Spells.word hword
  rwa [String.toList_ofList] at h

theorem spells_comment (cs : List Char) : Spells (comment cs).result (comment cs).body := by
  fun_induction comment cs with
  | case1 => exact .endOfInput
  | case2 => exact .lineEnd
  | case3 cs => exact spells_chunk cs
  | case4 _ _ _ _ ih => exact ih

/-- a scan of code takes a spelling of what it finds -/
theorem spells_code (cs : List Char) : Spells (code cs).result (code cs).body := by
  fun_induction code cs with
  | case1 => exact .endOfInput
  | case2 cs => exact spells_chunk cs
  | case3 _ _ _ _ ih => exact ih
  | case4 => exact .lineEnd
  | case5 cs => exact spells_comment cs
  | case6 cs => exact spells_string cs
  | case7 c cs _ _ _ _ _ hdigit => exact spells_integer hdigit cs
  | case8 c cs _ _ _ _ _ _ hstart => exact spells_word hstart cs
  | case9 c => exact .symbol c

/-! ## what is gone past -/

/-- blanks, and at most one comment behind them -/
inductive Idle : List Char → Prop
  | nil : Idle []
  | blank {c : Char} {cs : List Char} (hc : c = ' ' ∨ c = '\t' ∨ c = '\r') (h : Idle cs) :
      Idle (c :: cs)
  /-- a comment stays within its line and has no mark in it -/
  | comment {cs : List Char} (hline : '\n' ∉ cs) (hmark : ¬ ['%', '>'] <:+: cs) :
      Idle ('\'' :: cs)

/-- what stands in front of a result: idle text, and the mark that leaves code in front of a
chunk -/
inductive Leads : List Char → Except ParseFault TokenKind → Prop
  | chunk {cs : List Char} (h : Idle cs) (text : String) :
      Leads (cs ++ ['%', '>']) (.ok (.chunk text))
  | code {cs : List Char} (h : Idle cs) {r : Except ParseFault TokenKind}
      (hr : ∀ text, r ≠ .ok (.chunk text)) : Leads cs r

theorem Leads.blank {cs : List Char} {r : Except ParseFault TokenKind} (h : Leads cs r) {c : Char}
    (hc : c = ' ' ∨ c = '\t' ∨ c = '\r') : Leads (c :: cs) r := by
  cases h with
  | chunk h text => exact .chunk (.blank hc h) text
  | code h hr => exact .code (.blank hc h) hr

/-- the first characters of a text are those of a comment -/
structure InComment (text cs : List Char) : Prop where
  line : '\n' ∉ text
  mark : ¬ ['%', '>'] <:+: text
  start : text <+: cs

theorem InComment.nil (cs : List Char) : InComment [] cs :=
  ⟨List.not_mem_nil, by decide, List.nil_prefix⟩

theorem InComment.cons {text cs : List Char} (h : InComment text cs) {c : Char} (hc : c ≠ '\n')
    (hopen : ∀ tail, c = '%' → cs = '>' :: tail → False) : InComment (c :: text) (c :: cs) := by
  refine ⟨by simp [h.line, hc.symm], ?_, List.cons_prefix_cons.mpr ⟨rfl, h.start⟩⟩
  rw [List.infix_cons_iff]
  rintro (hfirst | hlater)
  · obtain ⟨rfl, hnext⟩ := List.cons_prefix_cons.mp hfirst
    obtain ⟨tail, htail⟩ := hnext.trans h.start
    exact hopen tail rfl htail.symm
  · exact h.mark hlater

/-- behind the start of a comment a scan goes past the comment, and past the mark in front of a
chunk -/
theorem lead_comment (cs : List Char) :
    ∃ text, InComment text cs ∧
      ((comment cs).lead = text ++ ['%', '>'] ∧ (∃ t, (comment cs).result = .ok (.chunk t)) ∨
        (comment cs).lead = text ∧ ∀ t, (comment cs).result ≠ .ok (.chunk t)) := by
  fun_induction comment cs with
  | case1 => exact ⟨[], .nil _, .inr ⟨rfl, by rintro _ ⟨⟩⟩⟩
  | case2 => exact ⟨[], .nil _, .inr ⟨rfl, by rintro _ ⟨⟩⟩⟩
  | case3 => exact ⟨[], .nil _, .inl ⟨rfl, _, rfl⟩⟩
  | case4 c cs hnewline hopen ih =>
    obtain ⟨text, htext, ⟨hlead, hr⟩ | ⟨hlead, hr⟩⟩ := ih
    · exact ⟨c :: text, htext.cons hnewline hopen, .inl ⟨congrArg (c :: ·) hlead, hr⟩⟩
    · exact ⟨c :: text, htext.cons hnewline hopen, .inr ⟨congrArg (c :: ·) hlead, hr⟩⟩

/-- a scan of code goes past idle text, and past the mark in front of a chunk -/
theorem leads_code (cs : List Char) : Leads (code cs).lead (code cs).result := by
  fun_induction code cs with
  | case1 => exact .code .nil (by rintro _ ⟨⟩)
  | case2 cs => exact .chunk .nil _
  | case3 c cs _ hblank ih => exact ih.blank hblank
  | case4 => exact .code .nil (by rintro _ ⟨⟩)
  | case5 cs =>
    obtain ⟨text, htext, ⟨hlead, t, hr⟩ | ⟨hlead, hr⟩⟩ := lead_comment cs
    · show Leads ('\'' :: (comment cs).lead) (comment cs).result
      rw [hlead, hr]
      exact .chunk (.comment htext.line htext.mark) t
    · show Leads ('\'' :: (comment cs).lead) (comment cs).result
      rw [hlead]
      exact .code (.comment htext.line htext.mark) hr
  | case6 cs =>
    refine .code .nil fun t h => ?_
    cases hvalue : (splitString cs).1 <;> simp [string, hvalue] at h
  | case7 c cs =>
    refine .code .nil fun t h => ?_
    cases hread : Text.readInteger ((c :: cs).takeWhile Text.isDigit) <;>
      simp [integer, hread] at h
  | case8 => exact .code .nil (by rintro _ ⟨⟩)
  | case9 => exact .code .nil (by rintro _ ⟨⟩)

/-! ## progress -/

theorem rest_chunk_eq_nil {cs : List Char} (h : (chunk cs).body = []) : (chunk cs).rest = [] := by
  have hsplit : (splitChunk cs).1 ++ (splitChunk cs).2.1 = [] → (splitChunk cs).2.2 = [] := by
    fun_cases splitChunk cs with
    | case1 => exact fun _ => rfl
    | case2 => exact nofun
    | case3 => exact nofun
  exact hsplit h

theorem rest_comment_eq_nil {cs : List Char} (h : (comment cs).body = []) :
    (comment cs).rest = [] := by
  fun_induction comment cs with
  | case1 => rfl
  | case2 => cases h
  | case3 => exact rest_chunk_eq_nil h
  | case4 _ _ _ _ ih => exact ih h

/-- what takes nothing leaves nothing: the end of the input, or an empty chunk in front of it -/
theorem rest_code_eq_nil {cs : List Char} (h : (code cs).body = []) : (code cs).rest = [] := by
  fun_induction code cs with
  | case1 => rfl
  | case2 => exact rest_chunk_eq_nil h
  | case3 _ _ _ _ ih => exact ih h
  | case4 => cases h
  | case5 => exact rest_comment_eq_nil h
  | case6 => cases h
  | case7 c cs _ _ _ _ _ hdigit => simp [integer, hdigit] at h
  | case8 c cs _ _ _ _ _ _ hstart => simp [word, isNameChar_of_isNameStart hstart] at h
  | case9 => cases h

end PageScript.Scan
