import ForeignBindings.Decimal.Basic
import ForeignBindings.Text.Blank
import ForeignBindings.Text.Digit

/-! Numbers as a user writes them.  Digits of every script count, blanks may surround the number,
and a single underscore may stand between two digits. -/

namespace ForeignBindings.Literal

/-- A blank that may surround a number: among ASCII characters only the space and the layout
controls. -/
def isMargin (c : Char) : Bool :=
  if c.toNat < 127 then c == ' ' || (9 ≤ c.toNat && c.toNat ≤ 13) else isBlank c

def isDigit (c : Char) : Bool := '0' ≤ c && c ≤ '9'

/-- The character with an ASCII digit for a digit of another script. -/
def plainDigit (c : Char) : Char :=
  match digitValue? c with
  | some value => Char.ofNat (48 + value)
  | none => c

/-- The text of a number without the blanks around it, its digits in ASCII. -/
def core (text : Text) : Text :=
  ((text.dropWhile isMargin).reverse.dropWhile isMargin).reverse.map plainDigit

/-- Drops single underscores between digits; `none` if an underscore stands anywhere else. -/
def dropUnderscores (afterDigit : Bool) : Text → Option Text
  | [] => some []
  | '_' :: c :: rest =>
    if afterDigit ∧ isDigit c then (dropUnderscores true rest).map (c :: ·) else none
  | '_' :: [] => none
  | c :: rest => (dropUnderscores (isDigit c) rest).map (c :: ·)

/-- A sign, if there is one, and the rest. -/
def takeSign : Text → Bool × Text
  | '-' :: rest => (true, rest)
  | '+' :: rest => (false, rest)
  | text => (false, text)

/-- The exponent at the end of a number, if its text is well formed. -/
def exponent? : Text → Option Int
  | [] => some 0
  | c :: rest =>
    if c = 'e' ∨ c = 'E' then
      let (negative, digits) := takeSign rest
      if digits ≠ [] ∧ digits.all isDigit then
        some (if negative then -(Text.digitsValue digits : Int) else Text.digitsValue digits)
      else none
    else none

/-- The decimal number that a text without sign, blanks and underscores writes. -/
def unsigned? (negative : Bool) (text : Text) : Option Decimal :=
  let whole := text.takeWhile isDigit
  let rest := text.dropWhile isDigit
  let (fraction, rest) := match rest with
    | '.' :: more => (more.takeWhile isDigit, more.dropWhile isDigit)
    | _ => ([], rest)
  if whole = [] ∧ fraction = [] then none
  else (exponent? rest).map fun e =>
    ⟨negative, Text.digitsValue (whole ++ fraction), e - fraction.length⟩

/-- The floating-point number that a text writes, infinities and undefined values included. -/
def real? (text : Text) : Option Float :=
  match dropUnderscores false (core text) with
  | none => none
  | some plain =>
    let (negative, body) := takeSign plain
    let name := body.lower
    if name = "inf".toList ∨ name = "infinity".toList then
      some (if negative then -1.0 / 0.0 else 1.0 / 0.0)
    else if name = "nan".toList then some (0.0 / 0.0)
    else (unsigned? negative body).map Decimal.toFloat

/-- The most digits that a written integer may have. -/
def maxIntegerDigits : Nat := 4300

/-- An integer is written with too many digits. -/
structure TooManyDigits where
  count : Nat
  deriving DecidableEq

def TooManyDigits.message (e : TooManyDigits) : Text :=
  "Exceeds the limit (".toList ++ Text.ofNat maxIntegerDigits ++
    " digits) for integer string conversion: value has ".toList ++ Text.ofNat e.count ++
    " digits; use sys.set_int_max_str_digits() to increase the limit".toList

/-- The number that decimal digits write, unless they are too many; leading zeros count. -/
def natural (digits : Text) : Except TooManyDigits Nat :=
  if maxIntegerDigits < digits.length then .error ⟨digits.length⟩
  else .ok (Text.digitsValue digits)

/-- The integer that a text writes. -/
def integer? (text : Text) : Option Int :=
  match dropUnderscores false (core text) with
  | none => none
  | some plain =>
    let (negative, digits) := takeSign plain
    if digits = [] ∨ ¬ digits.all isDigit then none
    else (natural digits).toOption.map fun value => if negative then -(value : Int) else value

end ForeignBindings.Literal
