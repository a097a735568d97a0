import PageScript.Json.Reader
import PageScript.Json.Writer
import PageScript.Proofs.Program.Alike
import PageScript.Proofs.Program.Tokens
import PageScript.Proofs.Value.Numerals

/-!
# What is written as JSON is read back

A value whose numbers are integers is what its text with one item a line denotes.  Strings, numbers
and brackets are taken one after the other, each with any text behind it, and the fuel is counted
in characters of the text: of two calls in a row one takes a character at least.

* `readString_quote`     a written string is read back, whatever becomes of lone surrogates;
* `readNumber_int`       a written integer is read back where no other number goes on;
* `reread`               the same of values, behind blanks;
* `read_pretty`          the same of whole texts.
-/

namespace PageScript.Json

/-! ## blanks -/

theorem readValue_of_skipSpace {names : LoneSurrogate} {fuel : Nat} {cs text : List Char}
    (h : skipSpace cs = skipSpace text) :
    readValue names (fuel + 1) cs = readValue names (fuel + 1) text := by
  rw [readValue.eq_2, readValue.eq_2, h]

theorem skipSpace_append {sp cs : List Char} (hsp : ∀ c ∈ sp, isSpace c = true)
    (hcs : ∀ c ∈ cs.head?, isSpace c = false) : skipSpace (sp ++ cs) = cs :=
  (Scan.span_of_all hsp hcs).2

theorem skipSpace_closing {gap : List Char} (hgap : ∀ c ∈ gap, isSpace c = true) {c : Char}
    (hc : isSpace c = false) (rest : List Char) : skipSpace (gap ++ c :: rest) = c :: rest :=
  skipSpace_append hgap (by rintro _ ⟨⟩; exact hc)

/-! ## strings -/

theorem hexValue_hexDigit : ∀ n < 16, hexValue (hexDigit n) = some n := by decide

/-- the piece that a character of a string becomes: only control characters are units -/
def Piece.Denotes : Piece → Char → Prop
  | .char c, d => c = d
  | .unit n, d => n = d.toNat ∧ n < 0x20

/-- the three spellings of a character inside a string -/
theorem escape_cases (c : Char) :
    (∃ letter, escape c = ['\\', letter] ∧ letter ≠ 'u' ∧ simpleEscape letter = some c) ∨
    (c.toNat < 0x20 ∧
      escape c = ['\\', 'u', '0', '0', hexDigit (c.toNat / 16), hexDigit (c.toNat % 16)]) ∨
    (escape c = [c] ∧ c ≠ '"' ∧ c ≠ '\\' ∧ ¬ c.toNat < 0x20) := by
  have hletter : ∀ letter, escape c = ['\\', letter] → letter ≠ 'u' →
      simpleEscape letter = some c →
      ∃ letter, escape c = ['\\', letter] ∧ letter ≠ 'u' ∧ simpleEscape letter = some c :=
    fun letter h hu hs => ⟨letter, h, hu, hs⟩
  by_cases hquote : c = '"'
  · subst hquote; exact .inl (hletter '"' rfl (by decide) rfl)
  by_cases hslash : c = '\\'
  · subst hslash; exact .inl (hletter '\\' rfl (by decide) rfl)
  by_cases hb : c = '\x08'
  · subst hb; exact .inl (hletter 'b' rfl (by decide) rfl)
  by_cases hf : c = '\x0c'
  · subst hf; exact .inl (hletter 'f' rfl (by decide) rfl)
  by_cases hn : c = '\n'
  · subst hn; exact .inl (hletter 'n' rfl (by decide) rfl)
  by_cases hr : c = '\r'
  · subst hr; exact .inl (hletter 'r' rfl (by decide) rfl)
  by_cases ht : c = '\t'
  · subst ht; exact .inl (hletter 't' rfl (by decide) rfl)
  have hescape : escape c = if c.toNat < 0x20 then
      ['\\', 'u', '0', '0', hexDigit (c.toNat / 16), hexDigit (c.toNat % 16)] else [c] := by
    rw [escape, if_neg hquote, if_neg hslash, if_neg hb, if_neg hf, if_neg hn, if_neg hr, if_neg ht]
  by_cases hcontrol : c.toNat < 0x20
  · exact .inr (.inl ⟨hcontrol, hescape.trans (if_pos hcontrol)⟩)
  · exact .inr (.inr ⟨hescape.trans (if_neg hcontrol), hquote, hslash, hcontrol⟩)

/-- a written character is one piece -/
theorem readPieces_escape (c : Char) :
    ∃ p : Piece, p.Denotes c ∧ ∀ cs,
      readPieces (escape c ++ cs) = (readPieces cs).map fun found => (p :: found.1, found.2) := by
  obtain ⟨letter, hescape, hu, hletter⟩ | ⟨hcontrol, hescape⟩ |
    ⟨hescape, hquote, hslash, hcontrol⟩ := escape_cases c
  · refine ⟨.char c, rfl, fun cs => ?_⟩
    rw [hescape, List.cons_append, List.cons_append, List.nil_append,
      readPieces.eq_4 _ _ fun _ _ _ _ _ h _ => hu h, hletter]
    cases readPieces cs <;> rfl
  · refine ⟨.unit c.toNat, ⟨rfl, hcontrol⟩, fun cs => ?_⟩
    have hhigh := hexValue_hexDigit (c.toNat / 16) (by omega)
    have hlow := hexValue_hexDigit (c.toNat % 16) (by omega)
    have hzero : hexValue '0' = some 0 := rfl
    have hvalue : ((0 * 16 + 0) * 16 + c.toNat / 16) * 16 + c.toNat % 16 = c.toNat := by omega
    rw [hescape]
    simp only [List.cons_append, List.nil_append]
    rw [readPieces.eq_3]
    simp only [hhigh, hlow, hzero, hvalue, Option.bind_eq_bind, Option.bind_some]
    cases readPieces cs <;> rfl
  · refine ⟨.char c, rfl, fun cs => ?_⟩
    rw [hescape, List.singleton_append, readPieces.eq_5 _ _ hquote (fun _ _ _ _ _ h _ => hslash h)
      fun _ _ h _ => hslash h, if_neg (by simp [hslash, hcontrol])]
    cases readPieces cs <;> rfl

theorem readPieces_escaped (s rest : List Char) :
    ∃ ps, List.Forall₂ Piece.Denotes ps s ∧
      readPieces (s.flatMap escape ++ '"' :: rest) = some (ps, rest) := by
  induction s with
  | nil => exact ⟨[], .nil, by rw [List.flatMap_nil, List.nil_append, readPieces.eq_2]⟩
  | cons c s ih =>
    obtain ⟨ps, hps, hread⟩ := ih
    obtain ⟨p, hp, hc⟩ := readPieces_escape c
    refine ⟨p :: ps, .cons hp hps, ?_⟩
    rw [List.flatMap_cons, List.append_assoc, hc, hread]
    rfl

/-- pieces without surrogates are the characters that they denote -/
theorem assemble_of_denotes {lone : LoneSurrogate} {ps : List Piece} {s : List Char}
    (h : List.Forall₂ Piece.Denotes ps s) : assemble lone ps = some s := by
  induction h with
  | nil => rw [assemble.eq_1]
  | @cons p c ps s hp hps ih =>
    cases p with
    | char d =>
      obtain rfl : d = c := hp
      rw [assemble.eq_2, ih, Option.map_some]
    | unit n =>
      obtain ⟨rfl, hn⟩ := hp
      have hhigh : isHigh c.toNat = false := by simp [isHigh]; omega
      have hlow : isLow c.toNat = false := by simp [isLow]; omega
      cases hps with
      | nil => simp [assemble, hhigh, hlow]
      | @cons q d ps s hq hps =>
        cases q with
        | char e =>
          rw [assemble.eq_4 _ _ _ (fun _ _ h => by cases h), hhigh, hlow, if_neg (by decide), ih,
            Option.map_some, Char.ofNat_toNat]
        | unit low =>
          have hnext : isHigh low = false := by
            have := hq.2
            simp [isHigh]; omega
          have hnextLow : isLow low = false := by
            have := hq.2
            simp [isLow]; omega
          rw [assemble.eq_3, hhigh, hnextLow, if_neg (by decide), hlow, if_neg (by decide), ih,
            Option.map_some, Char.ofNat_toNat]

theorem readString_quote (lone : LoneSurrogate) (s : String) (rest : List Char) :
    ∃ cs, (quote s).toList ++ rest = '"' :: cs ∧ readString lone cs = some (s, rest) := by
  obtain ⟨ps, hps, hread⟩ := readPieces_escaped s.toList rest
  refine ⟨s.toList.flatMap escape ++ '"' :: rest, by simp [quote], ?_⟩
  rw [readString, hread]
  simp only [Option.bind_eq_bind, Option.bind_some, assemble_of_denotes hps, String.ofList_toList]

/-! ## numbers -/

/-- a number ends in front of this text -/
def EndsNumber (cs : List Char) : Prop :=
  ∀ c ∈ cs.head?, Text.isDigit c = false ∧ c ≠ '.' ∧ c ≠ 'e' ∧ c ≠ 'E'

theorem endsNumber_nil : EndsNumber [] := nofun

theorem endsNumber_comma (cs : List Char) : EndsNumber (',' :: cs) := by
  intro c hc
  obtain rfl : ',' = c := Option.some.inj hc
  decide

theorem endsNumber_space {sp : List Char} (hsp : ∀ c ∈ sp, isSpace c = true) (hne : sp ≠ [])
    (cs : List Char) : EndsNumber (sp ++ cs) := by
  intro c hc
  rw [List.head?_append_of_ne_nil _ hne] at hc
  have hspace := hsp c (List.mem_of_mem_head? hc)
  simp only [isSpace, Bool.or_eq_true, decide_eq_true_eq] at hspace
  obtain ((rfl | rfl) | rfl) | rfl := hspace <;> decide

theorem readDigits_append {ds cs : List Char} (hds : Text.IsDigits ds) (hcs : EndsNumber cs) :
    readDigits (ds ++ cs) = some (ds, cs) := by
  obtain ⟨htake, hdrop⟩ := Scan.span_of_all hds.2 fun c hc => (hcs c hc).1
  rw [readDigits, htake, hdrop]
  cases ds with
  | nil => exact absurd rfl hds.1
  | cons d ds => rfl

theorem readFraction_of_ends {cs : List Char} (hcs : EndsNumber cs) :
    readFraction cs = some ([], cs) := by
  unfold readFraction
  split
  · exact absurd rfl (hcs '.' rfl).2.1
  · rfl

theorem readExponent_of_ends {cs : List Char} (hcs : EndsNumber cs) :
    readExponent cs = some ([], cs) := by
  cases cs with
  | nil => rfl
  | cons c cs =>
    obtain ⟨-, -, he, hE⟩ := hcs c rfl
    rw [readExponent, if_neg (by simp [he, hE])]

theorem head?_toDigits {n : Nat} (hn : n ≠ 0) : (Nat.toDigits 10 n).head? ≠ some '0' := by
  induction n using Nat.strong_induction_on with
  | _ n ih =>
    rw [Nat.toDigits_eq_if (by decide)]
    split
    · next hlt =>
      intro h
      have hdigit : n.digitChar = '0' := Option.some.inj h
      have hvalue := Nat.toNat_digitChar_sub_48_of_lt_ten hlt
      rw [hdigit] at hvalue
      exact hn hvalue.symm
    · next hge =>
      rw [List.head?_append_of_ne_nil _ Nat.toDigits_ne_nil]
      exact ih (n / 10) (by omega) (by omega)

theorem readUnsigned_toDigits (negative : Bool) {n : Nat} {cs : List Char} (hcs : EndsNumber cs)
    (hn : negative = true → n ≠ 0) :
    readUnsigned negative (Nat.toDigits 10 n ++ cs)
      = some (.int (if negative then -n else n), cs) := by
  have hpadded :
      ((Nat.toDigits 10 n).head? = some '0' && (Nat.toDigits 10 n).length > 1) = false := by
    by_cases hzero : n = 0
    · subst hzero; rfl
    · simp [head?_toDigits hzero]
  have hminus : (negative && n == 0) = false := by
    cases negative with
    | false => rfl
    | true => simp [hn rfl]
  rw [readUnsigned, readDigits_append (Text.isDigits_toDigits n) hcs]
  simp only [Option.bind_eq_bind, Option.bind_some, hpadded, Bool.false_eq_true, if_false,
    readFraction_of_ends hcs, readExponent_of_ends hcs, Text.digitsValue_eq_baseTen,
    Text.baseTen_toDigits, hminus, List.isEmpty_nil, Bool.and_true, Bool.not_false, if_true]

theorem toDigits_eq_cons (n : Nat) :
    ∃ d ds, Nat.toDigits 10 n = d :: ds ∧ Text.isDigit d = true := by
  have hdigits := Text.isDigits_toDigits n
  cases hds : Nat.toDigits 10 n with
  | nil => exact absurd hds hdigits.1
  | cons d ds => exact ⟨d, ds, rfl, hdigits.2 d (hds ▸ List.mem_cons_self)⟩

theorem readNumber_int (n : Int) {cs : List Char} (hcs : EndsNumber cs) :
    readNumber ((toString n).toList ++ cs) = some (.int n, cs) := by
  rw [Int.toString_eq_repr, Int.repr_eq_if]
  split
  · next hn =>
    have hread := readUnsigned_toDigits false (n := n.toNat) hcs nofun
    rw [if_neg (by decide), Int.toNat_of_nonneg hn] at hread
    obtain ⟨d, ds, hds, hd⟩ := toDigits_eq_cons n.toNat
    rw [Nat.toList_repr, ← hread, hds, List.cons_append, readNumber.eq_2]
    intro cs' h
    obtain ⟨rfl, -⟩ := List.cons.inj h
    exact absurd hd (by decide)
  · next hn =>
    have hread := readUnsigned_toDigits true (n := (-n).toNat) hcs (by omega)
    rw [if_pos rfl, Int.toNat_of_nonneg (by omega), Int.neg_neg] at hread
    rw [String.toList_append, Nat.toList_repr]
    exact hread

/-! ## values -/

mutual
/-- every number in the value is an integer -/
def Integral : Json → Prop
  | .null | .bool _ | .int _ | .str _ => True
  | .real _ => False
  | .arr items => AllIntegral items
  | .obj fields => FieldsIntegral fields

def AllIntegral : List Json → Prop
  | [] => True
  | item :: items => item.Integral ∧ AllIntegral items

def FieldsIntegral : List Field → Prop
  | [] => True
  | f :: fs => FieldIntegral f ∧ FieldsIntegral fs

def FieldIntegral : Field → Prop
  | ⟨_, value⟩ => value.Integral
end

/-! ## the layout -/

theorem isSpace_newLine (level : Nat) : ∀ c ∈ (newLine level).toList, isSpace c = true := by
  intro c hc
  simp only [newLine, String.toList_append, String.toList_ofList] at hc
  rcases List.mem_append.mp hc with hc | hc
  · obtain rfl : c = '\n' := by simpa using hc
    rfl
  · obtain rfl := List.eq_of_mem_replicate hc
    rfl

theorem isSpace_blank : ∀ c ∈ [' '], isSpace c = true :=
  List.forall_mem_singleton.mpr rfl

theorem newLine_ne_nil (level : Nat) : (newLine level).toList ≠ [] := by
  simp [newLine]

/-- written items, each but the first behind a comma and on a line of its own -/
def rows (level : Nat) (items : List String) : List Char :=
  (("," ++ newLine level).intercalate items).toList

theorem rows_singleton (level : Nat) (item : String) : rows level [item] = item.toList := by
  rw [rows, toList_intercalate_cons, List.flatMap_nil, List.append_nil]

theorem rows_cons_cons (level : Nat) (item next : String) (items : List String) :
    rows level (item :: next :: items)
      = item.toList ++ ',' :: ((newLine level).toList ++ rows level (next :: items)) := by
  simp [rows]

theorem rows_cons (level : Nat) (item : String) (items : List String) :
    ∃ cs, rows level (item :: items) = item.toList ++ cs :=
  ⟨_, toList_intercalate_cons _ item items⟩

theorem toList_arr_nil (level : Nat) : (prettyAt level (.arr [])).toList = ['[', ']'] := by
  simp [prettyAt, prettyItems, bracketed]

theorem toList_obj_nil (level : Nat) : (prettyAt level (.obj [])).toList = ['\x7b', '\x7d'] := by
  simp [prettyAt, prettyFields, bracketed]

theorem toList_arr (level : Nat) (item : Json) (items : List Json) :
    (prettyAt level (.arr (item :: items))).toList
      = '[' :: ((newLine (level + 1)).toList
        ++ (rows (level + 1) (prettyItems (level + 1) (item :: items))
          ++ ((newLine level).toList ++ [']']))) := by
  simp [prettyAt, prettyItems, bracketed, rows]

theorem toList_obj (level : Nat) (f : Field) (fs : List Field) :
    (prettyAt level (.obj (f :: fs))).toList
      = '\x7b' :: ((newLine (level + 1)).toList
        ++ (rows (level + 1) (prettyFields (level + 1) (f :: fs))
          ++ ((newLine level).toList ++ ['\x7d']))) := by
  simp [prettyAt, prettyFields, bracketed, rows]

theorem toList_int (n : Int) :
    ∃ c cs, (toString n).toList = c :: cs ∧ (c = '-' ∨ Text.isDigit c = true) := by
  rw [Int.toString_eq_repr, Int.repr_eq_if]
  split
  · obtain ⟨d, ds, hds, hd⟩ := toDigits_eq_cons n.toNat
    exact ⟨d, ds, by rw [Nat.toList_repr, hds], .inr hd⟩
  · exact ⟨'-', _, String.toList_append, .inl rfl⟩

theorem ne_of_numberStart {c d : Char} (hc : c = '-' ∨ Text.isDigit c = true) (hminus : '-' ≠ d)
    (hdigit : Text.isDigit d = false) : c ≠ d := by
  rintro rfl
  rcases hc with rfl | hc
  · exact hminus rfl
  · rw [hdigit] at hc
    cases hc

theorem isSpace_of_numberStart {c : Char} (hc : c = '-' ∨ Text.isDigit c = true) :
    isSpace c = false := by
  have hne := fun d => ne_of_numberStart (d := d) hc
  simp [isSpace, hne ' ' (by decide) (by decide), hne '\n' (by decide) (by decide),
    hne '\t' (by decide) (by decide), hne '\r' (by decide) (by decide)]

/-- a written value starts with no blank, and with nothing that closes brackets -/
theorem toList_prettyAt (level : Nat) {j : Json} (hj : j.Integral) :
    ∃ c cs, (prettyAt level j).toList = c :: cs ∧ isSpace c = false ∧ c ≠ ']' := by
  cases j with
  | null => exact ⟨'n', ['u', 'l', 'l'], by simp [prettyAt], by decide, by decide⟩
  | bool b =>
    cases b with
    | true => exact ⟨'t', ['r', 'u', 'e'], by simp [prettyAt], by decide, by decide⟩
    | false => exact ⟨'f', ['a', 'l', 's', 'e'], by simp [prettyAt], by decide, by decide⟩
  | int n =>
    obtain ⟨c, cs, htext, hc⟩ := toList_int n
    exact ⟨c, cs, by rw [prettyAt, htext], isSpace_of_numberStart hc,
      ne_of_numberStart hc (by decide) (by decide)⟩
  | real l => exact hj.elim
  | str s =>
    obtain ⟨cs, htext, -⟩ := readString_quote .refused s []
    exact ⟨'"', cs, by rwa [List.append_nil] at htext, by decide, by decide⟩
  | arr items =>
    cases items with
    | nil => exact ⟨'[', [']'], by simp [prettyAt, prettyItems, bracketed], by decide, by decide⟩
    | cons item items => exact ⟨'[', _, toList_arr level item items, by decide, by decide⟩
  | obj fields =>
    cases fields with
    | nil =>
      exact ⟨'\x7b', ['\x7d'], by simp [prettyAt, prettyFields, bracketed], by decide, by decide⟩
    | cons f fs => exact ⟨'\x7b', _, toList_obj level f fs, by decide, by decide⟩

/-! ## one step of reading -/

section

variable {names : LoneSurrogate} {fuel : Nat} {cs rest rest' : List Char} {item : Json}

theorem readValue_items {c : Char} (hrest : skipSpace rest = c :: rest') (hc : c ≠ ']') :
    readValue names (fuel + 1) ('[' :: rest)
      = (readItems fuel (c :: rest')).map fun found => (.arr found.1, found.2) := by
  have hbracket : skipSpace ('[' :: rest) = '[' :: rest := rfl
  rw [readValue.eq_2, hbracket]
  simp only [hrest]
  split
  · next h => exact absurd (List.cons.inj h).1 hc
  · cases readItems fuel (c :: rest') <;> rfl

theorem readValue_fields {c : Char} (hrest : skipSpace rest = c :: rest') (hc : c ≠ '\x7d') :
    readValue names (fuel + 1) ('\x7b' :: rest)
      = (readFields names fuel (c :: rest')).map fun found => (.obj found.1, found.2) := by
  have hbrace : skipSpace ('\x7b' :: rest) = '\x7b' :: rest := rfl
  rw [readValue.eq_2, hbrace]
  simp only [hrest]
  split
  · next h => exact absurd (List.cons.inj h).1 hc
  · cases readFields names fuel (c :: rest') <;> rfl

theorem readItems_last (hitem : readValue .replaced fuel cs = some (item, rest))
    (hrest : skipSpace rest = ']' :: rest') : readItems (fuel + 1) cs = some ([item], rest') := by
  rw [readItems.eq_2, hitem]
  simp only [Option.bind_eq_bind, Option.bind_some, hrest]

theorem readItems_comma (hitem : readValue .replaced fuel cs = some (item, rest))
    (hrest : skipSpace rest = ',' :: rest') :
    readItems (fuel + 1) cs
      = (readItems fuel rest').map fun found => (item :: found.1, found.2) := by
  rw [readItems.eq_2, hitem]
  simp only [Option.bind_eq_bind, Option.bind_some, hrest]
  cases readItems fuel rest' <;> rfl

variable {name : String} {text value : List Char}

theorem readFields_last (hcs : skipSpace cs = '"' :: text)
    (hname : readString names text = some (name, ':' :: value))
    (hvalue : readValue .replaced fuel value = some (item, rest))
    (hrest : skipSpace rest = '\x7d' :: rest') :
    readFields names (fuel + 1) cs = some ([⟨name, item⟩], rest') := by
  have hcolon : skipSpace (':' :: value) = ':' :: value := rfl
  rw [readFields.eq_2, hcs]
  simp only [hname, Option.bind_eq_bind, Option.bind_some, hcolon, hvalue, hrest]

theorem readFields_comma (hcs : skipSpace cs = '"' :: text)
    (hname : readString names text = some (name, ':' :: value))
    (hvalue : readValue .replaced fuel value = some (item, rest))
    (hrest : skipSpace rest = ',' :: rest') :
    readFields names (fuel + 1) cs
      = (readFields names fuel rest').map fun found => (⟨name, item⟩ :: found.1, found.2) := by
  have hcolon : skipSpace (':' :: value) = ':' :: value := rfl
  rw [readFields.eq_2, hcs]
  simp only [hname, Option.bind_eq_bind, Option.bind_some, hcolon, hvalue, hrest]
  cases readFields names fuel rest' <;> rfl

end

/-! ## reading values -/

/-- behind blanks and in front of any text that does not go on with a number, the written value is
read back -/
def Reread (j : Json) : Prop :=
  ∀ (names : LoneSurrogate) (level fuel : Nat) (sp rest : List Char),
    (∀ c ∈ sp, isSpace c = true) → EndsNumber rest →
    2 * (prettyAt level j).toList.length ≤ fuel →
    readValue names fuel (sp ++ ((prettyAt level j).toList ++ rest)) = some (j, rest)

/-- the same of the items of an array, up to the bracket that closes it -/
def ItemsReread (items : List Json) : Prop :=
  ∀ (level fuel : Nat) (sp gap rest : List Char),
    (∀ c ∈ sp, isSpace c = true) → (∀ c ∈ gap, isSpace c = true) → gap ≠ [] →
    2 * (rows level (prettyItems level items)).length < fuel →
    readItems fuel (sp ++ (rows level (prettyItems level items) ++ (gap ++ ']' :: rest)))
      = some (items, rest)

/-- the same of the fields of an object -/
def FieldsReread (fields : List Field) : Prop :=
  ∀ (names : LoneSurrogate) (level fuel : Nat) (sp gap rest : List Char),
    (∀ c ∈ sp, isSpace c = true) → (∀ c ∈ gap, isSpace c = true) → gap ≠ [] →
    2 * (rows level (prettyFields level fields)).length < fuel →
    readFields names fuel
        (sp ++ (rows level (prettyFields level fields) ++ (gap ++ '\x7d' :: rest)))
      = some (fields, rest)

theorem reread_of_skipped {j : Json} (hj : j.Integral)
    (h : ∀ (names : LoneSurrogate) (level fuel : Nat) {rest : List Char}, EndsNumber rest →
      2 * (prettyAt level j).toList.length ≤ fuel + 1 →
      readValue names (fuel + 1) ((prettyAt level j).toList ++ rest) = some (j, rest)) :
    j.Reread := by
  intro names level fuel sp rest hsp hrest hfuel
  obtain ⟨c, cs, htext, hc, -⟩ := toList_prettyAt level hj
  have hskip : ∀ sp : List Char, (∀ c ∈ sp, isSpace c = true) →
      skipSpace (sp ++ ((prettyAt level j).toList ++ rest))
        = (prettyAt level j).toList ++ rest := by
    intro sp hsp
    apply skipSpace_append hsp
    rw [htext]
    rintro _ ⟨⟩
    exact hc
  cases fuel with
  | zero =>
    rw [htext, List.length_cons] at hfuel
    omega
  | succ fuel =>
    rw [readValue_of_skipSpace ((hskip sp hsp).trans (hskip [] nofun).symm)]
    exact h names level fuel hrest hfuel

theorem reread_null : Json.null.Reread := by
  refine reread_of_skipped trivial fun names level fuel rest _ _ => ?_
  have htext : (prettyAt level .null).toList = ['n', 'u', 'l', 'l'] := by simp [prettyAt]
  rw [htext]
  rfl

theorem reread_bool (b : Bool) : (Json.bool b).Reread := by
  refine reread_of_skipped trivial fun names level fuel rest _ _ => ?_
  cases b with
  | true =>
    have htext : (prettyAt level (.bool true)).toList = ['t', 'r', 'u', 'e'] := by simp [prettyAt]
    rw [htext]
    rfl
  | false =>
    have htext : (prettyAt level (.bool false)).toList = ['f', 'a', 'l', 's', 'e'] := by
      simp [prettyAt]
    rw [htext]
    rfl

theorem reread_int (n : Int) : (Json.int n).Reread := by
  refine reread_of_skipped trivial fun names level fuel rest hrest _ => ?_
  have hread := readNumber_int n hrest
  obtain ⟨c, ds, htext, hc⟩ := toList_int n
  have hne := fun d => ne_of_numberStart (d := d) hc
  have hskip : skipSpace (c :: (ds ++ rest)) = c :: (ds ++ rest) :=
    List.dropWhile_cons_of_neg (by simp [isSpace_of_numberStart hc])
  rw [htext, List.cons_append] at hread
  rw [prettyAt, htext, List.cons_append, readValue.eq_2, hskip, ← hread]
  split
  · next h => exact absurd (List.cons.inj h).1 (hne 'n' (by decide) (by decide))
  · next h => exact absurd (List.cons.inj h).1 (hne 't' (by decide) (by decide))
  · next h => exact absurd (List.cons.inj h).1 (hne 'f' (by decide) (by decide))
  · next h => exact absurd (List.cons.inj h).1 (hne '"' (by decide) (by decide))
  · next h => exact absurd (List.cons.inj h).1 (hne '[' (by decide) (by decide))
  · next h => exact absurd (List.cons.inj h).1 (hne '\x7b' (by decide) (by decide))
  · rfl

theorem reread_str (s : String) : (Json.str s).Reread := by
  refine reread_of_skipped trivial fun names level fuel rest _ _ => ?_
  obtain ⟨ds, htext, hread⟩ := readString_quote .replaced s rest
  have hstep : readValue names (fuel + 1) ('"' :: ds)
      = (readString .replaced ds).bind fun found => some (.str found.1, found.2) := rfl
  rw [prettyAt, htext, hstep, hread]
  rfl

theorem reread_arr {items : List Json} (hitems : AllIntegral items)
    (h : items ≠ [] → ItemsReread items) : (Json.arr items).Reread := by
  refine reread_of_skipped hitems fun names level fuel rest _ hfuel => ?_
  cases items with
  | nil =>
    rw [toList_arr_nil]
    rfl
  | cons item items =>
    obtain ⟨c, ds, htext, hc, hclose⟩ := toList_prettyAt (level + 1) hitems.1
    obtain ⟨es, hrows⟩ := rows_cons (level + 1) (prettyAt (level + 1) item)
      (prettyItems (level + 1) items)
    rw [htext, List.cons_append] at hrows
    rw [toList_arr] at hfuel ⊢
    simp only [List.length_cons, List.length_append, List.length_nil] at hfuel
    have hread := h nofun (level + 1) fuel [] _ rest nofun (isSpace_newLine level)
      (newLine_ne_nil level) (by omega)
    rw [prettyItems, hrows] at hread ⊢
    simp only [List.cons_append, List.append_assoc, List.nil_append] at hread ⊢
    rw [readValue_items (skipSpace_closing (isSpace_newLine _) hc _) hclose, hread,
      Option.map_some]

theorem itemsReread_singleton {item : Json} (h : item.Reread) : ItemsReread [item] := by
  intro level fuel sp gap rest hsp hgap hne hfuel
  rw [prettyItems, prettyItems, rows_singleton] at *
  cases fuel with
  | zero => omega
  | succ fuel =>
    have hread :=
      h .replaced level fuel sp _ hsp (endsNumber_space hgap hne (']' :: rest)) (by omega)
    exact readItems_last hread (skipSpace_closing hgap (by decide) rest)

theorem itemsReread_cons {item next : Json} {items : List Json} (h : item.Reread)
    (hs : ItemsReread (next :: items)) : ItemsReread (item :: next :: items) := by
  intro level fuel sp gap rest hsp hgap hne hfuel
  have hrows : rows level (prettyItems level (item :: next :: items))
      = (prettyAt level item).toList
        ++ ',' :: ((newLine level).toList ++ rows level (prettyItems level (next :: items))) := by
    rw [prettyItems, prettyItems, rows_cons_cons]
  rw [hrows] at hfuel ⊢
  simp only [List.length_append, List.length_cons] at hfuel
  cases fuel with
  | zero => omega
  | succ fuel =>
    have hnext := hs level fuel _ gap rest (isSpace_newLine level) hgap hne (by omega)
    rw [List.append_assoc, List.cons_append, List.append_assoc]
    rw [readItems_comma (h .replaced level fuel sp _ hsp (endsNumber_comma _) (by omega)) rfl,
      hnext, Option.map_some]

theorem readString_field (names : LoneSurrogate) (level : Nat) (name : String) (value : Json)
    {sp : List Char} (hsp : ∀ c ∈ sp, isSpace c = true) (rest : List Char) :
    ∃ cs, skipSpace (sp ++ ((prettyField level ⟨name, value⟩).toList ++ rest)) = '"' :: cs ∧
      readString names cs
        = some (name, ':' :: ([' '] ++ ((prettyAt level value).toList ++ rest))) := by
  obtain ⟨cs, htext, hread⟩ :=
    readString_quote names name (':' :: ([' '] ++ ((prettyAt level value).toList ++ rest)))
  refine ⟨cs, ?_, hread⟩
  have hfield : (prettyField level ⟨name, value⟩).toList ++ rest = '"' :: cs := by
    rw [← htext, prettyField]
    simp
  rw [hfield]
  exact skipSpace_append hsp (by rintro _ ⟨⟩; rfl)

theorem toList_prettyField (level : Nat) (name : String) (value : Json) :
    ∃ cs, (prettyField level ⟨name, value⟩).toList = '"' :: cs := by
  simp [prettyField, quote]

theorem length_prettyField (level : Nat) (name : String) (value : Json) :
    (prettyAt level value).toList.length < (prettyField level ⟨name, value⟩).toList.length := by
  simp only [prettyField, String.toList_append, List.length_append]
  have hcolon : ": ".toList.length = 2 := by simp
  omega

theorem reread_obj {fields : List Field} (hfields : FieldsIntegral fields)
    (h : fields ≠ [] → FieldsReread fields) : (Json.obj fields).Reread := by
  refine reread_of_skipped hfields fun names level fuel rest _ hfuel => ?_
  cases fields with
  | nil =>
    rw [toList_obj_nil]
    rfl
  | cons f fs =>
    obtain ⟨name, value⟩ := f
    obtain ⟨es, hrows⟩ := rows_cons (level + 1) (prettyField (level + 1) ⟨name, value⟩)
      (prettyFields (level + 1) fs)
    obtain ⟨ds, htext⟩ := toList_prettyField (level + 1) name value
    rw [htext, List.cons_append] at hrows
    rw [toList_obj] at hfuel ⊢
    simp only [List.length_cons, List.length_append, List.length_nil] at hfuel
    have hread := h nofun names (level + 1) fuel [] _ rest nofun (isSpace_newLine level)
      (newLine_ne_nil level) (by omega)
    rw [prettyFields, hrows] at hread ⊢
    simp only [List.cons_append, List.append_assoc, List.nil_append] at hread ⊢
    rw [readValue_fields (skipSpace_closing (isSpace_newLine _) (by decide) _) (by decide), hread,
      Option.map_some]

theorem fieldsReread_singleton {name : String} {value : Json} (h : value.Reread) :
    FieldsReread [⟨name, value⟩] := by
  intro names level fuel sp gap rest hsp hgap hne hfuel
  have hlength := length_prettyField level name value
  rw [prettyFields, prettyFields, rows_singleton] at *
  cases fuel with
  | zero => omega
  | succ fuel =>
    obtain ⟨cs, hskip, hname⟩ :=
      readString_field names level name value hsp (gap ++ '\x7d' :: rest)
    have hvalue := h .replaced level fuel [' '] _ isSpace_blank
      (endsNumber_space hgap hne ('\x7d' :: rest)) (by omega)
    exact readFields_last hskip hname hvalue (skipSpace_closing hgap (by decide) rest)

theorem fieldsReread_cons {name : String} {value : Json} {f : Field} {fs : List Field}
    (h : value.Reread) (hs : FieldsReread (f :: fs)) : FieldsReread (⟨name, value⟩ :: f :: fs) := by
  intro names level fuel sp gap rest hsp hgap hne hfuel
  have hlength := length_prettyField level name value
  have hrows : rows level (prettyFields level (⟨name, value⟩ :: f :: fs))
      = (prettyField level ⟨name, value⟩).toList
        ++ ',' :: ((newLine level).toList ++ rows level (prettyFields level (f :: fs))) := by
    rw [prettyFields, prettyFields, rows_cons_cons]
  rw [hrows] at hfuel ⊢
  simp only [List.length_append, List.length_cons] at hfuel
  cases fuel with
  | zero => omega
  | succ fuel =>
    have hnext := hs names level fuel _ gap rest (isSpace_newLine level) hgap hne (by omega)
    rw [List.append_assoc, List.cons_append, List.append_assoc]
    obtain ⟨cs, hskip, hname⟩ := readString_field names level name value hsp
      (',' :: ((newLine level).toList ++ (rows level (prettyFields level (f :: fs))
        ++ (gap ++ '\x7d' :: rest))))
    have hvalue := h .replaced level fuel [' '] (',' :: ((newLine level).toList
      ++ (rows level (prettyFields level (f :: fs)) ++ (gap ++ '\x7d' :: rest)))) isSpace_blank
      (endsNumber_comma _) (by omega)
    rw [readFields_comma hskip hname hvalue rfl, hnext, Option.map_some]

mutual
/-- every written value is read back -/
theorem reread : ∀ {j : Json}, j.Integral → j.Reread
  | .null, _ => reread_null
  | .bool b, _ => reread_bool b
  | .int n, _ => reread_int n
  | .real _, hj => hj.elim
  | .str s, _ => reread_str s
  | .arr _, hj => reread_arr hj fun hne => itemsReread hj hne
  | .obj _, hj => reread_obj hj fun hne => fieldsReread hj hne

theorem itemsReread : ∀ {items : List Json}, AllIntegral items → items ≠ [] → ItemsReread items
  | [], _, hne => absurd rfl hne
  | [_], h, _ => itemsReread_singleton (reread h.1)
  | _ :: _ :: _, h, _ => itemsReread_cons (reread h.1) (itemsReread h.2 nofun)

theorem fieldsReread :
    ∀ {fields : List Field}, FieldsIntegral fields → fields ≠ [] → FieldsReread fields
  | [], _, hne => absurd rfl hne
  | [⟨_, _⟩], h, _ => fieldsReread_singleton (reread h.1)
  | ⟨_, _⟩ :: _ :: _, h, _ => fieldsReread_cons (reread h.1) (fieldsReread h.2 nofun)
end

/-- **What is written is read back.**  The text of a value with no numbers but integers, one item a
line, denotes this value. -/
theorem read_pretty {j : Json} (hj : j.Integral) : read j.pretty = some j := by
  have htext : readValue .refused (2 * j.pretty.toList.length + 2) ([] ++ (j.pretty.toList ++ []))
      = some (j, []) :=
    reread hj .refused 0 _ [] [] nofun endsNumber_nil (Nat.le_add_right _ 2)
  rw [List.nil_append, List.append_nil] at htext
  rw [read]
  simp only [htext, Option.bind_eq_bind, Option.bind_some]
  rfl

end PageScript.Json
