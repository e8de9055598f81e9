/-! Decimal numbers and the binary floating-point numbers nearest to them.  All rounding is done on
natural numbers: a quotient is scaled by a power of two until it has 53 bits, and a tie goes to the
even neighbour. -/

namespace ForeignBindings

/-- The number `digits * 10 ^ exponent`, negated if `negative`. -/
structure Decimal where
  negative : Bool
  digits : Nat
  exponent : Int
  deriving DecidableEq

def pow2 (n : Nat) : Nat := Nat.pow 2 n

def pow10 (n : Nat) : Nat := Nat.pow 10 n

/-- `num / den` rounded to a natural number, a tie going to the even one. -/
def roundDiv (num den : Nat) : Nat :=
  let quotient := num / den
  let twice := 2 * (num % den)
  if twice < den ∨ (twice = den ∧ quotient % 2 = 0) then quotient else quotient + 1

/-- The quotient `num / den` divided by `2 ^ exponent`, as a quotient. -/
def scaleDown (num den : Nat) : Int → Nat × Nat
  | .ofNat e => (num, den * pow2 e)
  | .negSucc e => (num * pow2 (e + 1), den)

/-- The exponent `e` for which `num / den` is at least `2 ^ (52 + e)` and below `2 ^ (53 + e)`, and
never less than that of the smallest floating-point number. -/
def binaryExponent (num den : Nat) : Int :=
  let guess : Int := (num.log2 : Int) - (den.log2 : Int) - 52
  let (n, d) := scaleDown num den guess
  max (-1074) (if n / d < pow2 52 then guess - 1 else guess)

/-- The bits of the floating-point number nearest to the positive quotient `num / den`. -/
def nearestBits (num den : Nat) : Nat :=
  let e := binaryExponent num den
  let (n, d) := scaleDown num den e
  let significand := roundDiv n d
  -- Rounding up to the next power of two carries into the exponent field by itself.
  if significand < pow2 52 then significand
  else min (2047 * pow2 52) ((e + 1074).toNat * pow2 52 + significand)

/-- The floating-point number nearest to a decimal one; what is too large becomes infinite. -/
def Decimal.toFloat (d : Decimal) : Float :=
  let size : Int := ((Nat.toDigits 10 d.digits).length : Int) + d.exponent
  let bits :=
    if d.digits = 0 ∨ size < -330 then 0
    else if size > 320 then 2047 * pow2 52
    else match d.exponent with
      | .ofNat e => nearestBits (d.digits * pow10 e) 1
      | .negSucc e => nearestBits d.digits (pow10 (e + 1))
  Float.ofBits (UInt64.ofNat ((if d.negative then pow2 63 else 0) + bits))

/-- The floating-point number nearest to an integer. -/
def floatOfInt (n : Int) : Float := (Decimal.mk (n < 0) n.natAbs 0).toFloat

end ForeignBindings
