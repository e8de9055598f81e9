import ForeignBindings.Decimal.Basic
import ForeignBindings.Text.Basic

/-! The text of a floating-point number: either the fewest digits that read back as the number, or a
fixed count of significant digits.  The digits are found on natural numbers; how they are laid out
is a record of choices. -/

namespace ForeignBindings.Digits

/-- The digits of a positive number and the place of its decimal point: the value is
`0.d₁d₂… * 10 ^ point`. -/
structure Expansion where
  digits : Text
  point : Int

/-- The significand and the exponent of a finite number. -/
def parts (bits : Nat) : Nat × Int :=
  let field : Nat := bits / pow2 52 % pow2 11
  let fraction : Nat := bits % pow2 52
  if field = 0 then (fraction, -1074) else (pow2 52 + fraction, (field : Int) - 1075)

/-- How often the quotient has to be multiplied by ten to reach one. -/
def leadingZeros (num den : Nat) : Nat → Nat
  | 0 => 0
  | fuel + 1 => if den ≤ num then 0 else 1 + leadingZeros (10 * num) den fuel

/-- The place of the decimal point of the positive quotient `num / den`. -/
def pointOf (num den : Nat) : Int :=
  if den ≤ num then (Nat.toDigits 10 (num / den)).length
  else 1 - (leadingZeros num den 400 : Int)

/-- The quotient in units of `10 ^ (point - count)`, as a quotient. -/
def scaled (num den : Nat) (point : Int) (count : Nat) : Nat × Nat :=
  match (count : Int) - point with
  | .ofNat e => (num * pow10 e, den)
  | .negSucc e => (num, den * pow10 (e + 1))

/-- The digits of a count of units, without zeros at the end. -/
def expansion (units count : Nat) (point : Int) : Expansion :=
  let digits := Nat.toDigits 10 units
  { digits := (digits.reverse.dropWhile (· == '0')).reverse
    point := point + digits.length - count }

/-- The grid of `count` digits has a point that reads back: the nearer neighbour of the value. -/
def hit? (num low high den : Nat) (closed : Bool) (point : Int) (count : Nat) : Option Expansion :=
  let (n, d) := scaled num den point count
  let (l, _) := scaled low den point count
  let (h, _) := scaled high den point count
  let fits (units : Nat) : Bool :=
    if closed then l ≤ units * d && units * d ≤ h else l < units * d && units * d < h
  let below := n / d
  let nearest := roundDiv n d
  let other := if nearest = below then below + 1 else below
  if fits nearest then some (expansion nearest count point)
  else if fits other then some (expansion other count point)
  else none

/-- The first count of digits, from `count` on, whose grid has a hit. -/
def firstHit (num low high den : Nat) (closed : Bool) (point : Int) :
    Nat → Nat → Expansion
  | 0, count => expansion 0 count point
  | fuel + 1, count =>
    match hit? num low high den closed point count with
    | some found => found
    | none => firstHit num low high den closed point fuel (count + 1)

/-- A finite positive number as four times its significand over a common denominator. -/
def quotient (significand : Nat) (exponent : Int) : Nat × Nat :=
  match exponent - 2 with
  | .ofNat e => (4 * significand * pow2 e, 1)
  | .negSucc e => (4 * significand, pow2 (e + 1))

/-- The fewest digits that read back as the number. -/
def shortest (bits : Nat) : Expansion :=
  let (significand, exponent) := parts bits
  let (num, den) := quotient significand exponent
  let unit := num / (4 * significand)
  let narrow := significand = pow2 52 ∧ exponent ≠ -1074
  let low := num - (if narrow then unit else 2 * unit)
  firstHit num low (num + 2 * unit) den (significand % 2 == 0) (pointOf num den) 17 1

/-- The number to `count` significant digits. -/
def significant (bits count : Nat) : Expansion :=
  let (significand, exponent) := parts bits
  let (num, den) := quotient significand exponent
  let point := pointOf num den
  let (n, d) := scaled num den point count
  expansion (roundDiv n d) count point

/-- How digits are laid out: up to which decimal point they are written without an exponent, and
whether a whole number keeps a fraction of zero. -/
structure Layout where
  widest : Int
  keepsFraction : Bool

/-- A number is written in full with its shortest digits. -/
def Layout.full : Layout := ⟨16, true⟩

/-- A number is written in brief with at most six digits. -/
def Layout.brief : Layout := ⟨6, false⟩

/-- An exponent has a sign and at least two digits. -/
def exponentText (e : Int) : Text :=
  'e' :: (if e < 0 then '-' else '+') :: Text.padZeros 2 (Text.ofNat e.natAbs)

/-- The text of the digits of a positive number. -/
def Layout.text (layout : Layout) (x : Expansion) : Text :=
  let count : Int := x.digits.length
  if -4 < x.point ∧ x.point ≤ layout.widest then
    if x.point ≤ 0 then "0.".toList ++ List.replicate x.point.natAbs '0' ++ x.digits
    else if count ≤ x.point then
      x.digits ++ List.replicate (x.point - count).toNat '0' ++
        (if layout.keepsFraction then ".0".toList else [])
    else x.digits.take x.point.toNat ++ '.' :: x.digits.drop x.point.toNat
  else
    x.digits.take 1 ++ (if count = 1 then [] else '.' :: x.digits.drop 1) ++
      exponentText (x.point - 1)

/-- The text of any floating-point number, given how to expand a positive one. -/
def write (layout : Layout) (expand : Nat → Expansion) (x : Float) : Text :=
  if x.isNaN then "nan".toList
  else
    let bits := x.toBits.toNat
    let magnitude := bits % pow2 63
    let sign : Text := if bits < pow2 63 then [] else ['-']
    if x.isInf then sign ++ "inf".toList
    else if magnitude = 0 then sign ++ (if layout.keepsFraction then "0.0".toList else ['0'])
    else sign ++ layout.text (expand magnitude)

/-- The fewest digits that read back, positional up to sixteen places. -/
def full (x : Float) : Text := write .full shortest x

/-- Six significant digits, positional up to six places. -/
def brief (x : Float) : Text := write .brief (significant · 6) x

end ForeignBindings.Digits
