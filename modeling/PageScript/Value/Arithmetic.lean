import PageScript.Value.Coercion

/-!
# Arithmetic

Operators on integers compute the exact result and fail when 64 bits do not hold it.  Both
divisions cut the quotient off toward zero; a remainder has the sign of the dividend, and is
refused where the quotient is.

A power with a negative exponent is the exact fraction cut off toward zero.  An exponent from
`2 ^ 32` on is refused for every base.  For a base other than zero and plus or minus one an
exponent above 63 never fits, since already `2 ^ 64` does not, so no large power is computed.
-/

namespace PageScript.Value

/-- an exact result as a value -/
def checked (n : Int) : Except RuntimeFault Value :=
  match Text.narrow n with
  | some n => .ok (.integer n)
  | none => .error .overflow

/-- both operands as integers, or the mismatch that names the operator and both types -/
def integers (op : BinaryOp) (left right : Value) : Except RuntimeFault (Int × Int) :=
  match left.toInteger?, right.toInteger? with
  | some a, some b => .ok (a.toInt, b.toInt)
  | _, _ => .error (.typeMismatch op left.type right.type)

/-- the quotient cut off toward zero -/
def quotient (a b : Int) : Except RuntimeFault Value :=
  if b = 0 then .error .divisionByZero else checked (a.tdiv b)

/-- the remainder that belongs to `quotient` -/
def remainder (a b : Int) : Except RuntimeFault Value :=
  if b = 0 then .error .divisionByZero
  else if Text.fits (a.tdiv b) then checked (a.tmod b)
  else .error .overflow

/-- a power of minus one, zero or one depends on the parity of the exponent only -/
def unitPower (base : Int) (exponent : Nat) : Int :=
  if exponent = 0 then 1 else if exponent % 2 = 0 then base * base else base

/-- the exponents that are refused start here, at `2 ^ 32` -/
def exponentLimit : Nat := 4294967296

def naturalPower (base : Int) (exponent : Nat) : Except RuntimeFault Value :=
  if exponentLimit ≤ exponent then .error .overflow
  else if base.natAbs ≤ 1 then checked (unitPower base exponent)
  else if 63 < exponent then .error .overflow
  else checked (base.pow exponent)

def reciprocalPower (base exponent : Int) : Except RuntimeFault Value :=
  if base = 0 then .error .divisionByZero
  else if base = 1 then checked 1
  else if base = -1 then checked (if exponent % 2 = 0 then 1 else -1)
  else checked 0

def power (base exponent : Int) : Except RuntimeFault Value :=
  if 0 ≤ exponent then naturalPower base exponent.toNat else reciprocalPower base exponent

def negate (v : Value) : Except RuntimeFault Value :=
  match v.toInteger? with
  | some n => checked (-n.toInt)
  | none => .error (.unaryTypeMismatch .neg v.type)

end PageScript.Value
