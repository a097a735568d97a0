import Mathlib.Data.Nat.Digits.Defs
import PageScript.Proofs.Token.Kinds
import PageScript.Proofs.Value.Exact
import PageScript.Proofs.Value.Ordering

/-!
# Numbers as text

A string is taken for an integer if it is a numeral between blanks: an optional sign and at least
one digit, denoting an integer that 64 bits hold (`toInteger?_string_iff`).  The text of an integer
is such a numeral and denotes the integer (`numeral_decimal`), so an integer that has become a
string is still the same operand, the same truth value and, without a sign, the same literal.

* `Numeral`                    the texts of integers, each with the integer that it denotes;
* `readInteger_eq_some_iff`    reading accepts the numerals that fit, and gives what they denote;
* `trim_eq_of_padded`          blanks around a text that has none inside are all that is trimmed;
* `StandsFor`                  a string in the place of an integer, where operands are converted.

Main statement: `Value.numbers_survive_text`.
-/

namespace PageScript

namespace Text

/-! ## numerals -/

theorem isDigit_iff {c : Char} : isDigit c = true ↔ 48 ≤ c.toNat ∧ c.toNat ≤ 57 := by
  rw [isDigit, Bool.and_eq_true, decide_eq_true_iff, decide_eq_true_iff]
  rfl

/-- at least one of the digits `0` to `9`, and nothing else -/
def IsDigits (ds : List Char) : Prop := ds ≠ [] ∧ ∀ c ∈ ds, isDigit c = true

/-- the number that digits denote in the base ten, the last of them worth least -/
def baseTen (ds : List Char) : Nat := Nat.ofDigits 10 (ds.reverse.map fun c => c.toNat - '0'.toNat)

/-- an optional sign and at least one digit, and the integer that this denotes -/
inductive Numeral : List Char → Int → Prop
  | unsigned {ds : List Char} (h : IsDigits ds) : Numeral ds (baseTen ds)
  | plus {ds : List Char} (h : IsDigits ds) : Numeral ('+' :: ds) (baseTen ds)
  | minus {ds : List Char} (h : IsDigits ds) : Numeral ('-' :: ds) (-(baseTen ds))

theorem digitsValue_eq_baseTen (ds : List Char) : digitsValue ds = baseTen ds := by
  induction ds using List.reverseRecOn with
  | nil => rfl
  | append_singleton ds c ih =>
    have hvalue : digitsValue (ds ++ [c]) = 10 * digitsValue ds + (c.toNat - '0'.toNat) :=
      List.foldl_append
    rw [hvalue, ih, baseTen, baseTen, List.reverse_append, List.reverse_singleton,
      List.singleton_append, List.map_cons, Nat.ofDigits_cons, Nat.add_comm]

theorem readNatural_eq_some_iff {ds : List Char} {n : Nat} :
    readNatural ds = some n ↔ IsDigits ds ∧ baseTen ds = n := by
  rw [readNatural, Option.ite_none_right_eq_some, Option.some.injEq, digitsValue_eq_baseTen,
    Bool.and_eq_true, Bool.not_eq_true', List.isEmpty_eq_false_iff, List.all_eq_true]
  rfl

theorem isDigits_toDigits (n : Nat) : IsDigits (Nat.toDigits 10 n) :=
  ⟨Nat.toDigits_ne_nil, fun _ => Scan.isDigit_of_mem_toDigits⟩

theorem baseTen_toDigits (n : Nat) : baseTen (Nat.toDigits 10 n) = n := by
  rw [← digitsValue_eq_baseTen]
  exact Nat.ofDigitChars_ten_toDigits

/-- the text of an integer denotes it -/
theorem numeral_decimal (n : Int64) : Numeral (decimal n).toList n.toInt := by
  unfold decimal
  rw [Int.toString_eq_repr, Int.repr_eq_if]
  split
  · next h =>
    have hn := Numeral.unsigned (isDigits_toDigits n.toInt.toNat)
    rw [baseTen_toDigits, Int.toNat_of_nonneg h] at hn
    rwa [Nat.toList_repr]
  · next h =>
    have hn := Numeral.minus (isDigits_toDigits (-n.toInt).toNat)
    rw [baseTen_toDigits, Int.toNat_of_nonneg (by omega), Int.neg_neg] at hn
    rw [String.toList_append, Nat.toList_repr]
    exact hn

namespace Numeral

variable {text : List Char} {z : Int}

theorem ne_nil (h : Numeral text z) : text ≠ [] := by
  cases h with
  | unsigned h => exact h.1
  | plus | minus => nofun

/-- a numeral has no other characters than signs and digits -/
theorem isDigit_of_mem (h : Numeral text z) {c : Char} (hc : c ∈ text) :
    c = '+' ∨ c = '-' ∨ isDigit c = true := by
  cases h with
  | unsigned h => exact Or.inr (Or.inr (h.2 c hc))
  | plus h => exact (List.mem_cons.mp hc).imp_right fun hc => Or.inr (h.2 c hc)
  | minus h => exact Or.inr ((List.mem_cons.mp hc).imp_right (h.2 c))

theorem not_isBlank (h : Numeral text z) {c : Char} (hc : c ∈ text) : isBlank c = false := by
  obtain rfl | rfl | hd := h.isDigit_of_mem hc
  · rfl
  · rfl
  · obtain ⟨hlow, hhigh⟩ := isDigit_iff.mp hd
    simp only [isBlank, blankRanges, List.any_cons, List.any_nil, Bool.or_false,
      Bool.or_eq_false_iff, Bool.and_eq_false_iff, decide_eq_false_iff_not]
    omega

/-- no letter case makes a numeral a word with an `e` in it -/
theorem toLower_ne (h : Numeral text z) {c : Char} (hc : c ∈ text) : c.toLower ≠ 'e' := by
  obtain rfl | rfl | hd := h.isDigit_of_mem hc
  · decide
  · decide
  · obtain ⟨hlow, hhigh⟩ := isDigit_iff.mp hd
    have hupper : ¬ (c.val ≥ 'A'.val ∧ c.val ≤ 'Z'.val) := by
      rintro ⟨hc, -⟩
      have hletter : 65 ≤ c.toNat := hc
      omega
    have hlower : c.toLower = c := dif_neg hupper
    rw [hlower]
    rintro rfl
    exact absurd hhigh (by decide)

end Numeral

/-! ## reading -/

theorem narrow_readNatural_iff {ds : List Char} {signed : Nat → Int} {n : Int64} :
    ((readNatural ds).bind fun m => narrow (signed m)) = some n
      ↔ IsDigits ds ∧ n.toInt = signed (baseTen ds) := by
  rw [Option.bind_eq_some_iff]
  constructor
  · rintro ⟨m, hm, hn⟩
    obtain ⟨hds, rfl⟩ := readNatural_eq_some_iff.mp hm
    exact ⟨hds, narrow_eq_some_iff.mp hn⟩
  · rintro ⟨hds, hn⟩
    exact ⟨_, readNatural_eq_some_iff.mpr ⟨hds, rfl⟩, narrow_eq_some_iff.mpr hn⟩

theorem readInteger_eq_some_iff {text : List Char} {n : Int64} :
    readInteger text = some n ↔ Numeral text n.toInt := by
  constructor
  · intro h
    unfold readInteger at h
    split at h
    · obtain ⟨hds, hn⟩ := narrow_readNatural_iff.mp h
      exact hn ▸ .plus hds
    · obtain ⟨hds, hn⟩ := narrow_readNatural_iff.mp h
      exact hn ▸ .minus hds
    · obtain ⟨hds, hn⟩ := narrow_readNatural_iff.mp h
      exact hn ▸ .unsigned hds
  · intro h
    generalize hz : n.toInt = z at h
    cases h with
    | plus hds => exact narrow_readNatural_iff.mpr ⟨hds, hz⟩
    | minus hds => exact narrow_readNatural_iff.mpr ⟨hds, hz⟩
    | unsigned hds =>
      rw [Scan.readInteger_digits hds.1 hds.2 (digitsValue_eq_baseTen text)]
      exact narrow_eq_some_iff.mpr hz

/-! ## blanks around -/

/-- a text with nothing but blanks in front of it and behind it -/
def Padded (cs text : List Char) : Prop :=
  ∃ before after, cs = before ++ text ++ after ∧
    (∀ c ∈ before, isBlank c = true) ∧ ∀ c ∈ after, isBlank c = true

theorem padded_self (cs : List Char) : Padded cs cs :=
  ⟨[], [], (List.append_nil cs).symm, nofun, nofun⟩

theorem padded_trim (cs : List Char) : Padded cs (trim cs) := by
  refine ⟨cs.takeWhile isBlank, ((trimLeft cs).reverse.takeWhile isBlank).reverse, ?_,
    List.all_eq_true.mp List.all_takeWhile,
    fun c hc => List.all_eq_true.mp List.all_takeWhile c (List.mem_reverse.mp hc)⟩
  have hright : trim cs ++ ((trimLeft cs).reverse.takeWhile isBlank).reverse = trimLeft cs := by
    rw [trim, trimLeft, ← List.reverse_append, List.takeWhile_append_dropWhile,
      List.reverse_reverse]
  rw [List.append_assoc, hright, trimLeft, List.takeWhile_append_dropWhile]

theorem trimLeft_append {before cs : List Char} (hbefore : ∀ c ∈ before, isBlank c = true)
    (hcs : ∀ c ∈ cs.head?, isBlank c = false) : trimLeft (before ++ cs) = cs :=
  (Scan.span_of_all hbefore hcs).2

/-- blanks around a text without blanks are all that is trimmed -/
theorem trim_eq_of_padded {cs text : List Char} (h : Padded cs text) (hne : text ≠ [])
    (htext : ∀ c ∈ text, isBlank c = false) : trim cs = text := by
  obtain ⟨before, after, rfl, hbefore, hafter⟩ := h
  have hhead : ∀ c ∈ (text ++ after).head?, isBlank c = false := by
    rw [List.head?_append_of_ne_nil _ hne]
    exact fun c hc => htext c (List.mem_of_mem_head? hc)
  have hlast : ∀ c ∈ text.reverse.head?, isBlank c = false :=
    fun c hc => htext c (List.mem_reverse.mp (List.mem_of_mem_head? hc))
  rw [trim, List.append_assoc, trimLeft_append hbefore hhead, List.reverse_append,
    trimLeft_append (fun c hc => hafter c (List.mem_reverse.mp hc)) hlast, List.reverse_reverse]

end Text

namespace Value

/-! ## strings as integers -/

/-- the integer that a string is taken for -/
theorem toInteger?_string_iff (s : String) (z : Int) :
    (string s).toInteger?.map Int64.toInt = some z ↔
      (∃ text, Text.Padded s.toList text ∧ Text.Numeral text z) ∧ -2 ^ 63 ≤ z ∧ z < 2 ^ 63 := by
  rw [Option.map_eq_some_iff]
  constructor
  · rintro ⟨n, hn, rfl⟩
    exact ⟨⟨_, Text.padded_trim s.toList, Text.readInteger_eq_some_iff.mp hn⟩, n.le_toInt,
      n.toInt_lt⟩
  · rintro ⟨⟨text, hpadded, htext⟩, hfits⟩
    cases hn : Text.narrow z with
    | none => exact absurd hfits (Text.narrow_eq_none_iff.mp hn)
    | some n =>
      have hz := Text.narrow_eq_some_iff.mp hn
      refine ⟨n, ?_, hz⟩
      show Text.readInteger (Text.trim s.toList) = some n
      rw [Text.trim_eq_of_padded hpadded htext.ne_nil fun c => htext.not_isBlank,
        Text.readInteger_eq_some_iff, hz]
      exact htext

theorem truthWord?_of_padded {s : String} {text : List Char} {z : Int}
    (hs : Text.Padded s.toList text) (htext : Text.Numeral text z) : truthWord? s = none := by
  -- both truth words are spelled with an `e`
  have he : ∀ word : String, 'e' ∈ word.toList → Text.fold (String.ofList text) ≠ word := by
    rintro word hmem rfl
    rw [Text.toList_fold, String.toList_ofList] at hmem
    obtain ⟨c, hc, hlower⟩ := List.mem_map.mp hmem
    exact htext.toLower_ne hc hlower
  rw [truthWord?, Text.trim_eq_of_padded hs htext.ne_nil fun c => htext.not_isBlank]
  exact (if_neg (he "true" (by decide))).trans (if_neg (he "false" (by decide)))

end Value

/-! ## strings in the place of integers -/

/-- the operators that take their operands for integers -/
def BinaryOp.isIntegral : BinaryOp → Bool
  | .xor | .or | .and | .add | .sub | .mod | .intDiv | .mul | .div | .pow => true
  | _ => false

namespace Value

/-- a string stands for an integer: an operator that takes its operands for integers and a
condition cannot tell the two apart; `+` joins two strings, so there the other operand is none -/
structure StandsFor (s : String) (n : Int64) : Prop where
  converted : (string s).toInteger? = some n
  left : ∀ (op : BinaryOp) (w : Value) (m : Int64), op.isIntegral = true →
    w.toInteger? = some m → ¬ (op = .add ∧ w.type = .string) →
      op.apply (.string s) w = op.apply (.integer n) w
  right : ∀ (op : BinaryOp) (w : Value) (m : Int64), op.isIntegral = true →
    w.toInteger? = some m → ¬ (op = .add ∧ w.type = .string) →
      op.apply w (.string s) = op.apply w (.integer n)
  unary : ∀ op : UnaryOp, op.apply (.string s) = op.apply (.integer n)
  truth : (string s).truth = (integer n).truth

theorem logical_eq {v w : Value} {m n : Int64} (hv : v.toInteger? = some m)
    (hw : w.toInteger? = some n) (h : ¬ (v.type = .boolean ∧ w.type = .boolean)) (op : BinaryOp)
    (truths : Bool → Bool → Bool) (bits : Int64 → Int64 → Int64) :
    logical op truths bits v w = .ok (.integer (bits m n)) := by
  unfold logical
  split
  · exact absurd ⟨rfl, rfl⟩ h
  · rw [hv, hw]

/-- operands that are the same integers give the same result, unless two truth values or two strings
meet, which have operators of their own -/
theorem apply_congr {op : BinaryOp} (hop : op.isIntegral = true) {v v' w w' : Value} {m n : Int64}
    (hv : v.toInteger? = some m) (hv' : v'.toInteger? = some m)
    (hw : w.toInteger? = some n) (hw' : w'.toInteger? = some n)
    (htruths : ¬ (v.type = .boolean ∧ w.type = .boolean))
    (htruths' : ¬ (v'.type = .boolean ∧ w'.type = .boolean))
    (hstrings : op = .add → ¬ (v.type = .string ∧ w.type = .string))
    (hstrings' : op = .add → ¬ (v'.type = .string ∧ w'.type = .string)) :
    op.apply v w = op.apply v' w' := by
  cases op with
  | xor | or | and =>
    rw [BinaryOp.apply, BinaryOp.apply, logical_eq hv hw htruths, logical_eq hv' hw' htruths']
  | add =>
    rw [BinaryOp.apply, BinaryOp.apply, add_eq_arithmetic (hstrings rfl),
      add_eq_arithmetic (hstrings' rfl), arithmetic_eq hv hw, arithmetic_eq hv' hw']
  | sub | mod | intDiv | mul | div | pow =>
    rw [BinaryOp.apply, BinaryOp.apply, arithmetic_eq hv hw, arithmetic_eq hv' hw']
  | _ => cases hop

theorem complement_eq {v : Value} {n : Int64} (hv : v.toInteger? = some n)
    (h : v.type ≠ .boolean) : complement v = .ok (.integer (~~~n)) := by
  unfold complement
  split
  · exact absurd rfl h
  · rw [hv]

theorem truth_of_numeral {s : String} {n : Int64} (hword : truthWord? s = none)
    (hn : stringInteger? s = some n) : (string s).truth = .ok (n != 0) := by
  unfold truth
  simp only [hword, hn]

theorem standsFor {s : String} {text : List Char} {n : Int64} (hs : Text.Padded s.toList text)
    (htext : Text.Numeral text n.toInt) : StandsFor s n := by
  have hconverted : (string s).toInteger? = some n := by
    obtain ⟨m, hm, hz⟩ := Option.map_eq_some_iff.mp
      ((toInteger?_string_iff s n.toInt).mpr ⟨⟨text, hs, htext⟩, n.le_toInt, n.toInt_lt⟩)
    rwa [← Int64.toInt_inj.mp hz]
  have hread : stringInteger? s = some n := hconverted
  -- neither is a truth value, and the integer is no string
  have hstring : (string s).type ≠ .boolean := by rintro ⟨⟩
  have hinteger : (integer n).type ≠ .boolean := by rintro ⟨⟩
  have hjoined : (integer n).type ≠ .string := by rintro ⟨⟩
  refine ⟨hconverted, fun op w m hop hw hadd => ?_, fun op w m hop hw hadd => ?_, fun op => ?_, ?_⟩
  · exact apply_congr hop hconverted rfl hw hw (fun h => hstring h.1) (fun h => hinteger h.1)
      (fun h hboth => hadd ⟨h, hboth.2⟩) fun _ h => hjoined h.1
  · exact apply_congr hop hw hw hconverted rfl (fun h => hstring h.2) (fun h => hinteger h.2)
      (fun h hboth => hadd ⟨h, hboth.1⟩) fun _ h => hjoined h.2
  · cases op with
    | neg =>
      rw [UnaryOp.apply, UnaryOp.apply, negate, hconverted]
      rfl
    | not =>
      rw [UnaryOp.apply, UnaryOp.apply, complement_eq hconverted hstring]
      rfl
  · exact truth_of_numeral (truthWord?_of_padded hs htext) hread

end Value

/-! ## integers as literals -/

/-- the text of an integer without a sign is one token -/
theorem TokenStream.reports_decimal {n : Int64} (hn : 0 ≤ n) (name : String) :
    (ofText name .code (Text.decimal n)).reports =
      [.ok ⟨.integer n, Position.start.locate name⟩,
       .ok ⟨.endOfInput, (Position.start.after (Text.decimal n).toList).locate name⟩] := by
  have hend : Scan.Breaks [] := trivial
  have hcode := Scan.code_of_decimal hn hend
  rw [List.append_nil] at hcode
  rw [ofText, ofCode_of_code hcode nofun, ofCode_nil]
  rfl

namespace Value

/-! ## what survives as text -/

theorem concat_integer (n : Int64) (u : String) :
    BinaryOp.concat.apply (.integer n) (.string u) = .ok (.string (Text.decimal n ++ u)) ∧
    BinaryOp.concat.apply (.string u) (.integer n) = .ok (.string (u ++ Text.decimal n)) :=
  ⟨rfl, rfl⟩

/-- a number and its text are the same condition -/
theorem exists_truth_text {v : Value} (hv : v.isNumber = true) :
    ∃ t b, BinaryOp.concat.apply v (.string "") = .ok (.string t) ∧
      (string t).truth = .ok b ∧ v.truth = .ok b := by
  cases v with
  | integer n =>
    have hstands := standsFor (Text.padded_self _) (Text.numeral_decimal n)
    refine ⟨Text.decimal n, n != 0, ?_, hstands.truth, rfl⟩
    rw [(concat_integer n "").1, String.append_empty]
  | boolean b =>
    cases b with
    | true => exact ⟨"True", true, rfl, by decide, rfl⟩
    | false => exact ⟨"False", false, rfl, by decide, rfl⟩
  | _ => cases hv

/-- **Numbers survive as text.**

A string is taken for an integer exactly if it is a numeral between blanks and the integer fits.
The text that `&` makes of an integer is such a numeral: with any blanks around it, it stands for
the integer in every operator that converts its operands and in a condition; without a sign it is
the literal of the integer.  And a number and its text are the same condition. -/
theorem numbers_survive_text :
    (∀ (s : String) (z : Int), (string s).toInteger?.map Int64.toInt = some z ↔
      (∃ text, Text.Padded s.toList text ∧ Text.Numeral text z) ∧ -2 ^ 63 ≤ z ∧ z < 2 ^ 63) ∧
    (∀ n : Int64, ∃ t : String,
      (∀ u : String, BinaryOp.concat.apply (.integer n) (.string u) = .ok (.string (t ++ u)) ∧
        BinaryOp.concat.apply (.string u) (.integer n) = .ok (.string (u ++ t))) ∧
      (∀ s : String, Text.Padded s.toList t.toList → StandsFor s n) ∧
      (0 ≤ n → ∀ name : String, (TokenStream.ofText name .code t).reports =
        [.ok ⟨.integer n, Position.start.locate name⟩,
         .ok ⟨.endOfInput, (Position.start.after t.toList).locate name⟩])) ∧
    (∀ v : Value, v.isNumber = true →
      ∃ t b, BinaryOp.concat.apply v (.string "") = .ok (.string t) ∧
        (string t).truth = .ok b ∧ v.truth = .ok b) :=
  ⟨toInteger?_string_iff,
    fun n => ⟨Text.decimal n, concat_integer n, fun _ h => standsFor h (Text.numeral_decimal n),
      TokenStream.reports_decimal⟩,
    fun _ => exists_truth_text⟩

/-- the least integer between blanks, and a numeral with a sign and zeros to spare -/
theorem numbers_survive_text_padded :
    StandsFor "\t-9223372036854775808 " Int64.minValue ∧
    (string " +007").toInteger?.map Int64.toInt = some 7 := by
  obtain ⟨hread, hwritten, -⟩ := numbers_survive_text
  obtain ⟨t, htext, hstands, -⟩ := hwritten Int64.minValue
  have ht : t = "-9223372036854775808" := by
    have hconcat := (htext "").1
    rw [(concat_integer _ _).1, String.append_empty, String.append_empty] at hconcat
    obtain rfl := Value.string.inj (Except.ok.inj hconcat)
    decide
  have hseven : Text.Numeral ['+', '0', '0', '7'] 7 := .plus ⟨nofun, List.all_eq_true.mp rfl⟩
  refine ⟨hstands _ ⟨['\t'], [' '], ?_, List.all_eq_true.mp rfl, List.all_eq_true.mp rfl⟩,
    (hread _ _).mpr ⟨⟨_, ⟨[' '], [], rfl, List.all_eq_true.mp rfl, nofun⟩, hseven⟩,
      by decide, by decide⟩⟩
  rw [ht]
  rfl

end Value

end PageScript
