/-!
# Integers as text

An integer of the language has 64 bits and a sign.  Its text is an optional sign and at least one
of the digits `0` to `9`; there is no other sign, separator or base.

* `fits`          the integers that 64 bits and a sign hold;
* `readNatural`   the number that a run of digits denotes;
* `readInteger`   the integer that a whole text denotes, if it denotes one that fits;
* `decimal`       the text of an integer.

Narrowing gives the 64-bit integer that is the integer (`narrow_eq_some_iff`), where there is one.
-/

namespace PageScript.Text

/-- the least integer, `-2 ^ 63` -/
def leastInteger : Int := -9223372036854775808

/-- the greatest integer, `2 ^ 63 - 1` -/
def greatestInteger : Int := 9223372036854775807

/-- how many natural numbers 64 bits hold, `2 ^ 64` -/
def naturals : Nat := 18446744073709551616

/-- the integers that 64 bits and a sign hold -/
def fits (n : Int) : Bool := leastInteger ≤ n && n ≤ greatestInteger

def narrow (n : Int) : Option Int64 := if fits n then some (Int64.ofInt n) else none

theorem fits_iff_between (z : Int) : fits z = true ↔ leastInteger ≤ z ∧ z ≤ greatestInteger := by
  rw [fits, Bool.and_eq_true, decide_eq_true_iff, decide_eq_true_iff]

theorem fits_toInt (n : Int64) : fits n.toInt = true := by
  have hleast := n.le_toInt
  have hgreatest := n.toInt_lt
  rw [fits_iff_between, leastInteger, greatestInteger]
  omega

theorem narrow_eq_some_iff {z : Int} {n : Int64} : narrow z = some n ↔ n.toInt = z := by
  constructor
  · intro h
    unfold narrow at h
    split at h
    · next hf =>
      rw [fits_iff_between, leastInteger, greatestInteger] at hf
      obtain rfl := Option.some.inj h
      exact Int64.toInt_ofInt_of_le (by omega) (by omega)
    · cases h
  · rintro rfl
    rw [narrow, if_pos (fits_toInt n), Int64.ofInt_toInt]

theorem narrow_toInt (n : Int64) : narrow n.toInt = some n := narrow_eq_some_iff.mpr rfl

def isDigit (c : Char) : Bool := '0' ≤ c && c ≤ '9'

/-- the number that a run of digits denotes; digits behind the others weigh less -/
def digitsValue (cs : List Char) : Nat := cs.foldl (fun n c => 10 * n + (c.toNat - '0'.toNat)) 0

/-- the number that a text of digits denotes -/
def readNatural (cs : List Char) : Option Nat :=
  if !cs.isEmpty && cs.all isDigit then some (digitsValue cs) else none

def readInteger : List Char → Option Int64
  | '+' :: cs => (readNatural cs).bind fun n => narrow n
  | '-' :: cs => (readNatural cs).bind fun n => narrow (-n)
  | cs => (readNatural cs).bind fun n => narrow n

def decimal (n : Int64) : String := toString n.toInt

end PageScript.Text
