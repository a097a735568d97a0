import Mathlib.Algebra.Order.Field.Power
import Mathlib.Algebra.Order.Floor.Ring
import Mathlib.Data.Rat.Floor
import Mathlib.Tactic.Linarith
import Mathlib.Tactic.Positivity
import PageScript.Value.Operation

/-!
# Exact results

What an operator on integers should yield is a matter of integers and fractions alone: a sum, a
product, a fraction cut off toward zero, a power.  An exact result is returned if 64 bits and a sign
hold it, and is an overflow otherwise (`gives_checked`, `checked_eq_overflow_iff`); what is left to
show is that each operator computes the exact result.

* `towardZero_intCast_div`         dividing integers is cutting off their fraction toward zero;
* `fits_tdiv_iff`                  of all quotients only that of `-2 ^ 63` by `-1` does not fit;
* `naturalPower_eq_checked`        a power below the limit of exponents is the exact power;
* `reciprocalPower_eq_checked`     a power with a negative exponent is the exact fraction, cut off;
* `apply_eq_checked`               an operator returns its exact result, if it refuses no operand.

Two operators refuse operands whose result would fit (`BinaryOp.Refuses`): a remainder is refused
together with its quotient, and an exponent from `2 ^ 32` on for every base.

Main statements: `Value.division_remainder_power`, `Value.fitting_results_returned`.
-/

namespace PageScript

/-! ## fractions cut off -/

/-- a fraction cut off toward zero -/
def towardZero (x : ℚ) : Int := if 0 ≤ x then ⌊x⌋ else ⌈x⌉

theorem towardZero_intCast (n : Int) : towardZero n = n := by
  unfold towardZero
  split
  · exact Int.floor_intCast n
  · exact Int.ceil_intCast n

theorem towardZero_neg (x : ℚ) : towardZero (-x) = -towardZero x := by
  unfold towardZero
  rcases lt_trichotomy x 0 with h | rfl | h
  · rw [if_pos (by linarith), if_neg (by linarith), Int.floor_neg]
  · simp
  · rw [if_neg (by linarith), if_pos h.le, Int.ceil_neg]

theorem towardZero_natCast_div (m n : Nat) : towardZero ((m : ℚ) / n) = (m : Int).tdiv n := by
  rw [towardZero, if_pos (by positivity), Rat.floor_natCast_div_natCast]
  exact (Int.ofNat_tdiv m n).symm

/-- the quotient of two integers is their fraction cut off -/
theorem towardZero_intCast_div (a b : Int) : towardZero ((a : ℚ) / b) = a.tdiv b := by
  obtain ⟨m, rfl | rfl⟩ := a.eq_nat_or_neg <;> obtain ⟨n, rfl | rfl⟩ := b.eq_nat_or_neg
  · exact towardZero_natCast_div m n
  · rw [Int.tdiv_neg, ← towardZero_natCast_div, ← towardZero_neg, Int.cast_neg, div_neg]
    rfl
  · rw [Int.neg_tdiv, ← towardZero_natCast_div, ← towardZero_neg, Int.cast_neg, neg_div]
    rfl
  · rw [Int.neg_tdiv, Int.tdiv_neg, neg_neg, ← towardZero_natCast_div, Int.cast_neg, Int.cast_neg,
      neg_div_neg_eq]
    rfl

theorem towardZero_of_abs_lt_one {x : ℚ} (h : |x| < 1) : towardZero x = 0 := by
  obtain ⟨hlow, hhigh⟩ := abs_lt.mp h
  unfold towardZero
  split
  · next h0 => exact Int.floor_eq_zero_iff.mpr ⟨h0, hhigh⟩
  · next h0 => exact Int.ceil_eq_zero_iff.mpr ⟨hlow, (not_le.mp h0).le⟩

/-! ## results that fit -/

theorem Text.fits_iff (z : Int) : fits z = true ↔ -2 ^ 63 ≤ z ∧ z < 2 ^ 63 := by
  rw [fits_iff_between, leastInteger, greatestInteger]
  omega

theorem Text.narrow_eq_none_iff {z : Int} : narrow z = none ↔ ¬ (-2 ^ 63 ≤ z ∧ z < 2 ^ 63) := by
  rw [← fits_iff, narrow]
  split
  · next hf => simp [hf]
  · next hf => simp [hf]

namespace Value

/-- the outcome is this integer -/
def Gives (r : Except RuntimeFault Value) (z : Int) : Prop :=
  ∃ n : Int64, r = .ok (.integer n) ∧ n.toInt = z

theorem gives_checked {z : Int} (h : -2 ^ 63 ≤ z ∧ z < 2 ^ 63) : Gives (checked z) z := by
  cases hn : Text.narrow z with
  | none => exact absurd h (Text.narrow_eq_none_iff.mp hn)
  | some n => exact ⟨n, by rw [checked, hn], Text.narrow_eq_some_iff.mp hn⟩

theorem checked_eq_overflow_iff {z : Int} :
    checked z = .error .overflow ↔ ¬ (-2 ^ 63 ≤ z ∧ z < 2 ^ 63) := by
  rw [← Text.narrow_eq_none_iff, checked]
  cases Text.narrow z <;> simp

theorem checked_ne_divisionByZero (z : Int) : checked z ≠ .error .divisionByZero := by
  unfold checked
  split <;> nofun

/-! ## quotients and remainders -/

theorem fits_tdiv_iff (a : Int64) {b : Int} (hb : b ≠ 0) :
    (-2 ^ 63 ≤ a.toInt.tdiv b ∧ a.toInt.tdiv b < 2 ^ 63) ↔ ¬ (a.toInt = -2 ^ 63 ∧ b = -1) := by
  have hleast := a.le_toInt
  have hgreatest := a.toInt_lt
  -- only a divisor of absolute value one leaves the quotient as large as the dividend
  by_cases hone : b.natAbs = 1
  · rcases Int.natAbs_eq_iff.mp hone with rfl | rfl
    · rw [Nat.cast_one, Int.tdiv_one]
      omega
    · rw [Nat.cast_one, Int.tdiv_neg, Int.tdiv_one]
      omega
  · have hhalf : (a.toInt.tdiv b).natAbs ≤ a.toInt.natAbs / 2 := by
      rw [Int.natAbs_tdiv]
      exact Nat.div_le_div_left (by omega) (by decide)
    omega

theorem natAbs_tmod_lt {a b : Int} (hb : b ≠ 0) : (a.tmod b).natAbs < b.natAbs := by
  rw [Int.natAbs_tmod]
  exact Nat.mod_lt _ (Int.natAbs_pos.mpr hb)

theorem fits_tmod (a : Int) {b : Int64} (hb : b.toInt ≠ 0) :
    -2 ^ 63 ≤ a.tmod b.toInt ∧ a.tmod b.toInt < 2 ^ 63 := by
  have hlt := natAbs_tmod_lt (a := a) hb
  have hleast := b.le_toInt
  have hgreatest := b.toInt_lt
  omega

theorem quotient_eq_checked {a b : Int} (hb : b ≠ 0) :
    quotient a b = checked (towardZero ((a : ℚ) / b)) := by
  rw [quotient, if_neg hb, towardZero_intCast_div]

structure QuotientOutcome (a b : Int) (r : Except RuntimeFault Value) : Prop where
  divisionByZero_iff : r = .error .divisionByZero ↔ b = 0
  overflow_iff : r = .error .overflow ↔ a = -2 ^ 63 ∧ b = -1
  gives : b ≠ 0 → ¬ (a = -2 ^ 63 ∧ b = -1) → Gives r (towardZero ((a : ℚ) / b))

theorem quotient_outcome (a b : Int64) :
    QuotientOutcome a.toInt b.toInt (quotient a.toInt b.toInt) := by
  by_cases hb : b.toInt = 0
  · have hquotient : quotient a.toInt b.toInt = .error .divisionByZero := if_pos hb
    rw [hquotient, hb]
    exact ⟨⟨fun _ => rfl, fun _ => rfl⟩, ⟨nofun, nofun⟩, fun h => absurd rfl h⟩
  · have hfits := fits_tdiv_iff a hb
    rw [← towardZero_intCast_div] at hfits
    rw [quotient_eq_checked hb]
    exact {
      divisionByZero_iff := ⟨fun h => absurd h (checked_ne_divisionByZero _), fun h => absurd h hb⟩
      overflow_iff := by rw [checked_eq_overflow_iff, hfits, not_not]
      gives := fun _ h => gives_checked (hfits.mpr h) }

structure RemainderOutcome (a b : Int) (r : Except RuntimeFault Value) : Prop where
  divisionByZero_iff : r = .error .divisionByZero ↔ b = 0
  overflow_iff : r = .error .overflow ↔ a = -2 ^ 63 ∧ b = -1
  gives : b ≠ 0 → ¬ (a = -2 ^ 63 ∧ b = -1) →
    ∃ m, Gives r m ∧ a = towardZero ((a : ℚ) / b) * b + m ∧ |m| < |b| ∧ (m = 0 ∨ m.sign = a.sign)

theorem remainder_eq_overflow {a b : Int64} (h : a.toInt = -2 ^ 63 ∧ b.toInt = -1) :
    remainder a.toInt b.toInt = .error .overflow := by
  rw [remainder, h.1, h.2]
  rfl

theorem remainder_eq_checked {a b : Int64} (hb : b.toInt ≠ 0)
    (h : ¬ (a.toInt = -2 ^ 63 ∧ b.toInt = -1)) :
    remainder a.toInt b.toInt = checked (a.toInt.tmod b.toInt) := by
  rw [remainder, if_neg hb, if_pos ((Text.fits_iff _).mpr ((fits_tdiv_iff a hb).mpr h))]

theorem remainder_outcome (a b : Int64) :
    RemainderOutcome a.toInt b.toInt (remainder a.toInt b.toInt) := by
  by_cases hb : b.toInt = 0
  · have hremainder : remainder a.toInt b.toInt = .error .divisionByZero := if_pos hb
    rw [hremainder, hb]
    exact ⟨⟨fun _ => rfl, fun _ => rfl⟩, ⟨nofun, nofun⟩, fun h => absurd rfl h⟩
  by_cases h : a.toInt = -2 ^ 63 ∧ b.toInt = -1
  · rw [remainder_eq_overflow h]
    exact ⟨⟨nofun, fun h0 => absurd h0 hb⟩, ⟨fun _ => h, fun _ => rfl⟩, fun _ hn => absurd h hn⟩
  · have hfits := fits_tmod a.toInt hb
    rw [remainder_eq_checked hb h]
    refine ⟨⟨fun h0 => absurd h0 (checked_ne_divisionByZero _), fun h0 => absurd h0 hb⟩,
      ⟨fun h0 => absurd hfits (checked_eq_overflow_iff.mp h0), fun h0 => absurd h0 h⟩,
      fun _ _ => ⟨a.toInt.tmod b.toInt, gives_checked hfits, ?_, ?_, ?_⟩⟩
    · rw [towardZero_intCast_div, Int.tdiv_mul_add_tmod]
    · have hlt := natAbs_tmod_lt (a := a.toInt) hb
      rw [Int.abs_eq_natAbs, Int.abs_eq_natAbs]
      exact_mod_cast hlt
    · have hsign := Int.sign_tmod a.toInt b.toInt
      split at hsign
      · exact Or.inl (Int.sign_eq_zero_iff_zero.mp hsign)
      · exact Or.inr hsign

/-! ## powers -/

theorem unitPower_eq {a : Int} (ha : a.natAbs ≤ 1) (k : Nat) : unitPower a k = a ^ k := by
  unfold unitPower
  split
  · next h0 => rw [h0, pow_zero]
  · next h0 =>
    obtain rfl | rfl | rfl : a = 0 ∨ a = 1 ∨ a = -1 := by omega
    · rw [zero_pow h0, mul_zero, ite_self]
    · rw [one_pow, mul_one, ite_self]
    · split
      · next heven => rw [(Nat.even_iff.mpr heven).neg_one_pow, neg_mul_neg, mul_one]
      · next hodd => rw [(Nat.odd_iff.mpr (by omega)).neg_one_pow]

/-- a power with more than 63 factors fits only if they are zero or plus or minus one -/
theorem not_fits_pow {a : Int} (ha : 2 ≤ a.natAbs) {k : Nat} (hk : 64 ≤ k) :
    ¬ (-2 ^ 63 ≤ a ^ k ∧ a ^ k < 2 ^ 63) := by
  have hlarge : 2 ^ 64 ≤ (a ^ k).natAbs :=
    calc 2 ^ 64 ≤ 2 ^ k := Nat.pow_le_pow_right (by decide) hk
      _ ≤ a.natAbs ^ k := Nat.pow_le_pow_left ha k
      _ = (a ^ k).natAbs := (Int.natAbs_pow a k).symm
  omega

theorem naturalPower_eq_checked (a : Int) {k : Nat} (hk : k < exponentLimit) :
    naturalPower a k = checked (a ^ k) := by
  rw [naturalPower, if_neg (Nat.not_le.mpr hk)]
  split
  · next ha => rw [unitPower_eq ha]
  · next ha =>
    split
    · next hlarge => exact (checked_eq_overflow_iff.mpr (not_fits_pow (by omega) hlarge)).symm
    · rw [Int.pow_eq]

theorem towardZero_neg_one_zpow (b : Int) :
    towardZero ((-1 : ℚ) ^ b) = if b % 2 = 0 then 1 else -1 := by
  split
  · next heven =>
    rw [(Int.even_iff.mpr heven).neg_one_zpow, ← Int.cast_one, towardZero_intCast]
  · next hodd =>
    rw [(Int.odd_iff.mpr (by omega)).neg_one_zpow, towardZero_neg, ← Int.cast_one,
      towardZero_intCast]

/-- a power with a negative exponent is a fraction of absolute value one at most, cut off -/
theorem gives_reciprocalPower {a b : Int} (ha : a ≠ 0) (hb : b < 0) :
    Gives (reciprocalPower a b) (towardZero ((a : ℚ) ^ b)) := by
  rw [reciprocalPower, if_neg ha]
  split
  · next hone =>
    have hcut : towardZero ((a : ℚ) ^ b) = 1 := by
      rw [hone, Int.cast_one, one_zpow]
      exact towardZero_intCast 1
    rw [hcut]
    exact gives_checked (by decide)
  split
  · next hminus =>
    rw [hminus, Int.cast_neg, Int.cast_one, towardZero_neg_one_zpow]
    exact gives_checked (by split <;> decide)
  · have hlarge : 1 < |a| := by
      rw [Int.abs_eq_natAbs]
      omega
    have hlt : |(a : ℚ) ^ b| < 1 := by
      rw [abs_zpow]
      exact zpow_lt_one_of_neg₀ (by exact_mod_cast hlarge) hb
    rw [towardZero_of_abs_lt_one hlt]
    exact gives_checked (by decide)

structure PowerOutcome (a b : Int) (r : Except RuntimeFault Value) : Prop where
  gives : 0 ≤ b → b < 2 ^ 32 → -2 ^ 63 ≤ a ^ b.toNat → a ^ b.toNat < 2 ^ 63 →
    Gives r (a ^ b.toNat)
  overflow : 0 ≤ b → ¬ (b < 2 ^ 32 ∧ -2 ^ 63 ≤ a ^ b.toNat ∧ a ^ b.toNat < 2 ^ 63) →
    r = .error .overflow
  divisionByZero_iff : b < 0 → (r = .error .divisionByZero ↔ a = 0)
  reciprocal : b < 0 → a ≠ 0 → Gives r (towardZero ((a : ℚ) ^ b))

theorem power_outcome (a b : Int) : PowerOutcome a b (power a b) := by
  by_cases hb : 0 ≤ b
  · have hpower : power a b = naturalPower a b.toNat := if_pos hb
    rw [hpower]
    refine ⟨fun _ hlimit hleast hgreatest => ?_, fun _ hnot => ?_, fun h => absurd h (by omega),
      fun h => absurd h (by omega)⟩
    · rw [naturalPower_eq_checked a (by unfold exponentLimit; omega)]
      exact gives_checked ⟨hleast, hgreatest⟩
    · by_cases hlimit : b.toNat < exponentLimit
      · rw [naturalPower_eq_checked a hlimit, checked_eq_overflow_iff]
        exact fun hfits => hnot ⟨by unfold exponentLimit at hlimit; omega, hfits⟩
      · exact if_pos (Nat.not_lt.mp hlimit)
  · have hpower : power a b = reciprocalPower a b := if_neg hb
    rw [hpower]
    refine ⟨fun h => absurd h hb, fun h => absurd h hb,
      fun hneg => ⟨fun h => ?_, fun h => if_pos h⟩, fun hneg ha => gives_reciprocalPower ha hneg⟩
    by_contra ha
    obtain ⟨n, hn, -⟩ := gives_reciprocalPower ha hneg
    exact nomatch hn.symm.trans h

/-! ## operators on values -/

section

variable {v w : Value} {a b : Int64}

theorem arithmetic_eq (hv : v.toInteger? = some a) (hw : w.toInteger? = some b) (op : BinaryOp)
    (compute : Int → Int → Except RuntimeFault Value) :
    arithmetic op compute v w = compute a.toInt b.toInt := by
  rw [arithmetic, integers, hv, hw]
  rfl

theorem arithmetic_of_none (h : v.toInteger? = none ∨ w.toInteger? = none) (op : BinaryOp)
    (compute : Int → Int → Except RuntimeFault Value) :
    arithmetic op compute v w = .error (.typeMismatch op v.type w.type) := by
  rw [arithmetic, integers]
  cases hv : v.toInteger? with
  | none => rfl
  | some a =>
    have hw : w.toInteger? = none := h.resolve_left (by rw [hv]; nofun)
    rw [hw]
    rfl

end

/-- **Division, remainder and power.**

For operands that are integers, both divisions give the quotient cut off toward zero, and the
remainder is what belongs to that quotient and has the sign of the dividend; all three fail for a
divisor of zero, and overflow for the one quotient that does not fit.  A power with a natural
exponent is the exact power, and an overflow if it does not fit or the exponent reaches `2 ^ 32`; a
power with a negative exponent is the exact fraction cut off toward zero, and fails for the base
zero.  Other operands are a mismatch that names the operator and both types. -/
theorem division_remainder_power (v w : Value) :
    (∀ a b : Int64, v.toInteger? = some a → w.toInteger? = some b →
      QuotientOutcome a.toInt b.toInt (BinaryOp.div.apply v w) ∧
      QuotientOutcome a.toInt b.toInt (BinaryOp.intDiv.apply v w) ∧
      RemainderOutcome a.toInt b.toInt (BinaryOp.mod.apply v w) ∧
      PowerOutcome a.toInt b.toInt (BinaryOp.pow.apply v w)) ∧
    (v.toInteger? = none ∨ w.toInteger? = none →
      ∀ op ∈ [BinaryOp.div, .intDiv, .mod, .pow],
        op.apply v w = .error (.typeMismatch op v.type w.type)) := by
  constructor
  · intro a b hv hw
    simp only [BinaryOp.apply, arithmetic_eq hv hw]
    exact ⟨quotient_outcome a b, quotient_outcome a b, remainder_outcome a b, power_outcome _ _⟩
  · intro h op hop
    simp only [List.mem_cons, List.not_mem_nil, or_false] at hop
    rcases hop with rfl | rfl | rfl | rfl <;> exact arithmetic_of_none h _ _

/-- `-7` and `2` as a text and an integer; the most negative integer and `-1`; a word -/
theorem division_remainder_power_signs :
    QuotientOutcome (-7) 2 (BinaryOp.div.apply (.string " -7") (.integer 2)) ∧
    RemainderOutcome (-7) 2 (BinaryOp.mod.apply (.string " -7") (.integer 2)) ∧
    PowerOutcome (-7) 2 (BinaryOp.pow.apply (.string " -7") (.integer 2)) ∧
    QuotientOutcome (-2 ^ 63) (-1)
      (BinaryOp.intDiv.apply (.integer Int64.minValue) (.boolean true)) ∧
    BinaryOp.pow.apply (.string "x") (.integer 2)
      = .error (.typeMismatch .pow .string .integer) := by
  obtain ⟨hdiv, -, hmod, hpow⟩ := (division_remainder_power (.string " -7") (.integer 2)).1 (-7) 2
    (by decide) (by decide)
  obtain ⟨-, hextreme, -, -⟩ :=
    (division_remainder_power (.integer Int64.minValue) (.boolean true)).1 Int64.minValue (-1)
      (by decide) (by decide)
  exact ⟨hdiv, hmod, hpow, hextreme,
    (division_remainder_power _ _).2 (Or.inl (by decide)) _ (by decide)⟩

end Value

/-! ## results that fit are returned -/

namespace BinaryOp

/-- the exact result of an arithmetic operator on integers, where there is one -/
def exactResult? (op : BinaryOp) (a b : Int) : Option Int :=
  match op with
  | .add => some (a + b)
  | .sub => some (a - b)
  | .mul => some (a * b)
  | .div | .intDiv => if b = 0 then none else some (towardZero ((a : ℚ) / b))
  | .mod => if b = 0 then none else some (a - towardZero ((a : ℚ) / b) * b)
  | .pow => if 0 ≤ b then some (a ^ b.toNat) else none
  | _ => none

/-- operands that are refused though their exact result would fit: a remainder whose quotient does
not fit, and an exponent over the limit with a base whose powers are all small -/
def Refuses (op : BinaryOp) (a b : Int) : Prop :=
  (op = .mod ∧ a = -2 ^ 63 ∧ b = -1) ∨ (op = .pow ∧ 2 ^ 32 ≤ b ∧ a.natAbs ≤ 1)

end BinaryOp

namespace Value

theorem add_eq_arithmetic {v w : Value} (h : ¬ (v.type = .string ∧ w.type = .string)) :
    add v w = arithmetic .add (fun a b => checked (a + b)) v w := by
  unfold add
  split
  · exact absurd ⟨rfl, rfl⟩ h
  · rfl

theorem quotient_eq_exact {op : BinaryOp} (hop : op = .div ∨ op = .intDiv) {a b r : Int}
    (hr : op.exactResult? a b = some r) : quotient a b = checked r := by
  have hexact : op.exactResult? a b = if b = 0 then none else some (towardZero ((a : ℚ) / b)) := by
    rcases hop with rfl | rfl <;> rfl
  rw [hexact, Option.ite_none_left_eq_some] at hr
  rw [quotient_eq_checked hr.1, Option.some.inj hr.2]

theorem remainder_eq_exact {a b : Int64} {r : Int}
    (hr : BinaryOp.mod.exactResult? a.toInt b.toInt = some r)
    (h : ¬ BinaryOp.mod.Refuses a.toInt b.toInt) : remainder a.toInt b.toInt = checked r := by
  rw [BinaryOp.exactResult?, Option.ite_none_left_eq_some] at hr
  obtain ⟨hb, hr⟩ := hr
  rw [remainder_eq_checked hb fun hcorner => h (Or.inl ⟨rfl, hcorner⟩), ← Option.some.inj hr,
    towardZero_intCast_div, Int.tmod_def, mul_comm]

theorem power_eq_exact {a b r : Int} (hr : BinaryOp.pow.exactResult? a b = some r)
    (h : ¬ BinaryOp.pow.Refuses a b) : power a b = checked r := by
  rw [BinaryOp.exactResult?, Option.ite_none_right_eq_some] at hr
  obtain ⟨hb, hr⟩ := hr
  rw [power, if_pos hb, ← Option.some.inj hr]
  by_cases hlimit : b.toNat < exponentLimit
  · exact naturalPower_eq_checked a hlimit
  · -- over the limit only small bases would fit, and those are the refused ones
    have hlarge : 2 ^ 32 ≤ b := by
      unfold exponentLimit at hlimit
      omega
    have ha : ¬ a.natAbs ≤ 1 := fun ha => h (Or.inr ⟨rfl, hlarge, ha⟩)
    rw [checked_eq_overflow_iff.mpr (not_fits_pow (by omega) (by omega))]
    exact if_pos (Nat.not_lt.mp hlimit)

/-- an operator computes its exact result -/
theorem apply_eq_checked {op : BinaryOp} {v w : Value} {a b : Int64} {r : Int}
    (hv : v.toInteger? = some a) (hw : w.toInteger? = some b)
    (hstrings : ¬ (op = .add ∧ v.type = .string ∧ w.type = .string))
    (hr : op.exactResult? a.toInt b.toInt = some r) (h : ¬ op.Refuses a.toInt b.toInt) :
    op.apply v w = checked r := by
  have harith := arithmetic_eq hv hw
  cases op with
  | add =>
    rw [BinaryOp.apply, add_eq_arithmetic fun hboth => hstrings ⟨rfl, hboth⟩, harith]
    exact congrArg checked (Option.some.inj hr)
  | sub | mul =>
    rw [BinaryOp.apply, harith]
    exact congrArg checked (Option.some.inj hr)
  | div =>
    rw [BinaryOp.apply, harith]
    exact quotient_eq_exact (Or.inl rfl) hr
  | intDiv =>
    rw [BinaryOp.apply, harith]
    exact quotient_eq_exact (Or.inr rfl) hr
  | mod =>
    rw [BinaryOp.apply, harith]
    exact remainder_eq_exact hr h
  | pow =>
    rw [BinaryOp.apply, harith]
    exact power_eq_exact hr h
  | _ => cases hr

/-- **An overflow means that the result does not fit.**

Where an operator has an exact result and does not refuse the operands, it returns that result if 64
bits and a sign hold it, and fails with an overflow if they do not; and so does the sign. -/
theorem fitting_results_returned :
    (∀ (op : BinaryOp) (v w : Value) (a b : Int64) (r : Int),
      v.toInteger? = some a → w.toInteger? = some b →
      ¬ (op = .add ∧ v.type = .string ∧ w.type = .string) →
      op.exactResult? a.toInt b.toInt = some r → ¬ op.Refuses a.toInt b.toInt →
      (-2 ^ 63 ≤ r ∧ r < 2 ^ 63 → Gives (op.apply v w) r) ∧
      (op.apply v w = .error .overflow ↔ ¬ (-2 ^ 63 ≤ r ∧ r < 2 ^ 63))) ∧
    (∀ (v : Value) (a : Int64), v.toInteger? = some a →
      (-2 ^ 63 ≤ -a.toInt ∧ -a.toInt < 2 ^ 63 → Gives (UnaryOp.neg.apply v) (-a.toInt)) ∧
      (UnaryOp.neg.apply v = .error .overflow ↔ ¬ (-2 ^ 63 ≤ -a.toInt ∧ -a.toInt < 2 ^ 63))) := by
  constructor
  · intro op v w a b r hv hw hstrings hr h
    rw [apply_eq_checked hv hw hstrings hr h]
    exact ⟨gives_checked, checked_eq_overflow_iff⟩
  · intro v a hv
    have hneg : UnaryOp.neg.apply v = checked (-a.toInt) := by
      rw [UnaryOp.apply, negate, hv]
    rw [hneg]
    exact ⟨gives_checked, checked_eq_overflow_iff⟩

/-- a product that is `-2 ^ 63`, and a sign that reaches `2 ^ 63` -/
theorem fitting_results_returned_atLimits :
    Gives (BinaryOp.mul.apply (.integer 4294967296) (.string "-2147483648")) (-2 ^ 63) ∧
    UnaryOp.neg.apply (.integer Int64.minValue) = .error .overflow := by
  obtain ⟨hbinary, hunary⟩ := fitting_results_returned
  have hproduct := hbinary .mul (.integer 4294967296) (.string "-2147483648") 4294967296
    (-2147483648) (-2 ^ 63) (by decide) (by decide) (by decide) (by decide)
    (by simp [BinaryOp.Refuses])
  exact ⟨hproduct.1 (by decide), (hunary _ Int64.minValue (by decide)).2.mpr (by decide)⟩

/-- the remainder of `-2 ^ 63` by `-1` is zero and a power of one is one, and both are refused -/
theorem fittingResult_refused :
    (BinaryOp.mod.exactResult? Int64.minValue.toInt (-1 : Int64).toInt = some 0 ∧
      ¬ Gives (BinaryOp.mod.apply (.integer Int64.minValue) (.integer (-1))) 0) ∧
    (BinaryOp.pow.exactResult? (1 : Int64).toInt (4294967296 : Int64).toInt = some 1 ∧
      ¬ Gives (BinaryOp.pow.apply (.integer 1) (.integer 4294967296)) 1) := by
  have hremainder : BinaryOp.mod.apply (.integer Int64.minValue) (.integer (-1))
      = .error .overflow := by rfl
  have hpower : BinaryOp.pow.apply (.integer 1) (.integer 4294967296) = .error .overflow := by rfl
  refine ⟨⟨?_, ?_⟩, ?_, ?_⟩
  · rw [BinaryOp.exactResult?, if_neg (by decide), towardZero_intCast_div]
    decide
  · rw [hremainder]
    rintro ⟨n, hn, -⟩
    cases hn
  · rw [BinaryOp.exactResult?, if_pos (by decide)]
    exact congrArg some (one_pow _)
  · rw [hpower]
    rintro ⟨n, hn, -⟩
    cases hn

end Value

end PageScript
