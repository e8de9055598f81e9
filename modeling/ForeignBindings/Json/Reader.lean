import ForeignBindings.Decimal.Literal
import ForeignBindings.Json.Value

/-! Reading JSON.  Beside the standard the reader takes the names `NaN`, `Infinity` and `-Infinity`;
a string may not hold control characters.  A fault is reported at the place where the reader
noticed it, as a line and a column. -/

namespace ForeignBindings.Json

/-- What the reader missed or met. -/
inductive Fault
  | expectedValue
  | expectedKey
  | expectedColon
  | expectedComma
  | openString
  | controlCharacter
  | badEscape
  | badUnicodeEscape
  | extraData
  | byteOrderMark
  deriving DecidableEq

def Fault.message : Fault → Text
  | .expectedValue => "Expecting value".toList
  | .expectedKey => "Expecting property name enclosed in double quotes".toList
  | .expectedColon => "Expecting ':' delimiter".toList
  | .expectedComma => "Expecting ',' delimiter".toList
  | .openString => "Unterminated string starting at".toList
  | .controlCharacter => "Invalid control character at".toList
  | .badEscape => "Invalid \\escape".toList
  | .badUnicodeEscape => "Invalid \\uXXXX escape".toList
  | .extraData => "Extra data".toList
  | .byteOrderMark => "Unexpected UTF-8 BOM (decode using utf-8-sig)".toList

/-- A value that holds other values. -/
inductive Compound
  | array
  | object
  deriving DecidableEq

/-- The wording for brackets that are nested too deeply, the last of them those of a compound. -/
def Compound.tooDeep (compound : Compound) : Text :=
  let name := match compound with
    | .array => "array".toList
    | .object => "object".toList
  "maximum recursion depth exceeded while decoding a JSON ".toList ++ name ++
    " from a unicode string".toList

/-- How many brackets may be open at once. -/
def maxOpen : Nat := 988

/-- Why reading ends early: a fault noticed when `remaining` characters of the text were still to be
read, an integer that is too long, or a bracket more than may be open. -/
inductive Stop
  | fault (fault : Fault) (remaining : Nat)
  | tooManyDigits (error : Literal.TooManyDigits)
  | tooDeep (compound : Compound)

/-- Why a text cannot be read: a fault and the line and column, from one, where it was noticed; or a
value that the reader refuses. -/
inductive ReadError
  | malformed (fault : Fault) (line column : Nat)
  | tooManyDigits (error : Literal.TooManyDigits)
  | tooDeep (compound : Compound)
  deriving DecidableEq

/-- The wording of an error, without the place. -/
def ReadError.message : ReadError → Text
  | .malformed fault _ _ => fault.message
  | .tooManyDigits error => error.message
  | .tooDeep compound => compound.tooDeep

/-- A blank between the parts of JSON. -/
def isSpace (c : Char) : Bool := c == ' ' || c == '\t' || c == '\n' || c == '\r'

/-- The text from its next part on. -/
def skipSpace (text : Text) : Text := text.dropWhile isSpace

/-- The value of a hexadecimal digit. -/
def hexValue? (c : Char) : Option Nat :=
  if '0' ≤ c ∧ c ≤ '9' then some (c.toNat - 48)
  else if 'a' ≤ c ∧ c ≤ 'f' then some (c.toNat - 87)
  else if 'A' ≤ c ∧ c ≤ 'F' then some (c.toNat - 55)
  else none

/-- The value of four hexadecimal digits at the head of a text that goes on after them. -/
def hex4? : Text → Option (Nat × Text)
  | a :: b :: c :: d :: next :: rest =>
    match hexValue? a, hexValue? b, hexValue? c, hexValue? d with
    | some w, some x, some y, some z => some (((w * 16 + x) * 16 + y) * 16 + z, next :: rest)
    | _, _, _, _ => none
  | _ => none

/-- The character of a short escape. -/
def shortEscape? (c : Char) : Option Char :=
  if c = '\x22' ∨ c = '\x5c' ∨ c = '/' then some c
  else if c = 'b' then some '\x08'
  else if c = 'f' then some '\x0c'
  else if c = 'n' then some '\n'
  else if c = 'r' then some '\r'
  else if c = 't' then some '\t'
  else none

/-- The character of a sixteen-bit code; half of a surrogate pair alone is no character and counts
as the null character. -/
def unitChar (code : Nat) : Char := Char.ofNat code

/-- The character of a Unicode escape whose digits start `text`: two escapes that form a surrogate
pair are one character. -/
def unicodeEscape (text : Text) : Except Stop (Char × Text) :=
  match hex4? text with
  | none => .error (.fault .badUnicodeEscape (text.length + 1))
  | some (high, rest) =>
    match rest with
    | '\x5c' :: 'u' :: more =>
      if 0xd800 ≤ high ∧ high ≤ 0xdbff ∧ 5 ≤ more.length then
        match hex4? more with
        | none => .error (.fault .badUnicodeEscape (more.length + 1))
        | some (low, last) =>
          if 0xdc00 ≤ low ∧ low ≤ 0xdfff then
            .ok (Char.ofNat (0x10000 + (high - 0xd800) * 0x400 + (low - 0xdc00)), last)
          else .ok (unitChar high, rest)
      else .ok (unitChar high, rest)
    | _ => .ok (unitChar high, rest)

/-- The rest of a string after its opening quote; `start` is what was left to read at that quote. -/
def readString (start : Nat) : Nat → Text → Except Stop (Text × Text)
  | 0, _ => .error (.fault .openString start)
  | _ + 1, [] => .error (.fault .openString start)
  | fuel + 1, c :: rest =>
    if c = '\x22' then .ok ([], rest)
    else if c = '\x5c' then
      match rest with
      | [] => .error (.fault .openString start)
      | 'u' :: more =>
        match unicodeEscape more with
        | .error stop => .error stop
        | .ok (c, last) => (readString start fuel last).map fun (text, left) => (c :: text, left)
      | e :: more =>
        match shortEscape? e with
        | none => .error (.fault .badEscape (rest.length + 1))
        | some c => (readString start fuel more).map fun (text, left) => (c :: text, left)
    else if c.toNat < 32 then .error (.fault .controlCharacter (rest.length + 1))
    else (readString start fuel rest).map fun (text, left) => (c :: text, left)

/-- The digits of the whole part of a number: a zero, or digits that do not start with one. -/
def wholePart? (text : Text) : Option (Text × Text) :=
  match text with
  | '0' :: rest => some (['0'], rest)
  | _ =>
    let digits := text.takeWhile Literal.isDigit
    if digits = [] then none else some (digits, text.dropWhile Literal.isDigit)

/-- The fraction of a number, if one follows. -/
def fractionPart? : Text → Option (Text × Text)
  | '.' :: rest =>
    let digits := rest.takeWhile Literal.isDigit
    if digits = [] then none else some (digits, rest.dropWhile Literal.isDigit)
  | _ => none

/-- The exponent of a number, if one follows. -/
def exponentPart? : Text → Option (Int × Text)
  | c :: rest =>
    if c = 'e' ∨ c = 'E' then
      let (negative, body) := Literal.takeSign rest
      let digits := body.takeWhile Literal.isDigit
      if digits = [] then none
      else
        let value : Int := Text.digitsValue digits
        some (if negative then -value else value, body.dropWhile Literal.isDigit)
    else none
  | [] => none

/-- A number at the head of a text; only whole numbers can have too many digits. -/
def number? (text : Text) : Option (Except Literal.TooManyDigits Json × Text) :=
  let (negative, body) := match text with
    | '-' :: rest => (true, rest)
    | _ => (false, text)
  match wholePart? body with
  | none => none
  | some (whole, rest) =>
    let fraction := fractionPart? rest
    let afterFraction := (fraction.map Prod.snd).getD rest
    let power := exponentPart? afterFraction
    if fraction.isNone ∧ power.isNone then
      let signed (n : Nat) : Int := if negative then -n else n
      some ((Literal.natural whole).map fun n => .int (signed n), rest)
    else
      let digits := (fraction.map Prod.fst).getD []
      let exponent : Int := (power.map Prod.fst).getD 0 - digits.length
      let value := Decimal.mk negative (Text.digitsValue (whole ++ digits)) exponent
      some (.ok (.real value.toFloat), (power.map Prod.snd).getD afterFraction)

/-- The values that are written as a name. -/
def names : List (Text × Json) :=
  [("null".toList, .null), ("true".toList, .bool true), ("false".toList, .bool false),
   ("NaN".toList, .real (0.0 / 0.0)), ("Infinity".toList, .real (1.0 / 0.0)),
   ("-Infinity".toList, .real (-1.0 / 0.0))]

/-- A name at the head of a text. -/
def name? (text : Text) : Option (Json × Text) :=
  (names.find? fun (name, _) => name.isPrefixOf text).map fun (name, value) =>
    (value, text.drop name.length)

mutual

/-- The value at the head of a text, with at most `depth` more brackets open at once. -/
def readValue : Nat → Nat → Text → Except Stop (Json × Text)
  | 0, _, text => .error (.fault .expectedValue text.length)
  | fuel + 1, depth, text =>
    match text with
    | '\x22' :: rest =>
      (readString text.length text.length rest).map fun (value, left) => (.string value, left)
    | '\x7b' :: rest =>
      match depth with
      | 0 => .error (.tooDeep .object)
      | depth + 1 =>
        match skipSpace rest with
        | '\x7d' :: left => .ok (.object [], left)
        | inside =>
          (readMembers fuel depth inside).map fun (members, left) => (.object members, left)
    | '\x5b' :: rest =>
      match depth with
      | 0 => .error (.tooDeep .array)
      | depth + 1 =>
        match skipSpace rest with
        | '\x5d' :: left => .ok (.array [], left)
        | inside => (readItems fuel depth inside).map fun (items, left) => (.array items, left)
    | _ =>
      match name? text with
      | some found => .ok found
      | none =>
        match number? text with
        | some (.ok value, left) => .ok (value, left)
        | some (.error error, _) => .error (.tooManyDigits error)
        | none => .error (.fault .expectedValue text.length)

/-- The items of an array from one of them on, to the closing bracket. -/
def readItems : Nat → Nat → Text → Except Stop (List Json × Text)
  | 0, _, text => .error (.fault .expectedValue text.length)
  | fuel + 1, depth, text =>
    match readValue fuel depth text with
    | .error stop => .error stop
    | .ok (item, rest) =>
      match skipSpace rest with
      | '\x5d' :: left => .ok ([item], left)
      | ',' :: more =>
        (readItems fuel depth (skipSpace more)).map fun (items, left) => (item :: items, left)
      | other => .error (.fault .expectedComma other.length)

/-- The members of an object from one of them on, to the closing brace. -/
def readMembers : Nat → Nat → Text → Except Stop (List (Text × Json) × Text)
  | 0, _, text => .error (.fault .expectedKey text.length)
  | fuel + 1, depth, text =>
    match text with
    | '\x22' :: opened =>
      match readString text.length text.length opened with
      | .error stop => .error stop
      | .ok (key, afterKey) =>
        match skipSpace afterKey with
        | ':' :: afterColon =>
          match readValue fuel depth (skipSpace afterColon) with
          | .error stop => .error stop
          | .ok (value, rest) =>
            match skipSpace rest with
            | '\x7d' :: left => .ok ([(key, value)], left)
            | ',' :: more =>
              (readMembers fuel depth (skipSpace more)).map fun (members, left) =>
                ((key, value) :: members, left)
            | other => .error (.fault .expectedComma other.length)
        | other => .error (.fault .expectedColon other.length)
    | _ => .error (.fault .expectedKey text.length)

end

/-- Enough steps for a text: at most two for each character, and one for its end. -/
def steps (text : Text) : Nat := 2 * text.length + 1

/-- The whole of a text as one value. -/
def readAll (text : Text) : Except Stop Json :=
  if text.head? = some '\ufeff' then .error (.fault .byteOrderMark text.length)
  else match readValue (steps text) maxOpen (skipSpace text) with
    | .error stop => .error stop
    | .ok (value, rest) =>
      match skipSpace rest with
      | [] => .ok value
      | other => .error (.fault .extraData other.length)

/-- The line and the column, from one, after the characters read so far. -/
def lineAndColumn (done : Text) : Nat × Nat :=
  (1 + done.count '\n', 1 + (done.reverse.takeWhile (· ≠ '\n')).length)

/-- The error that ends the reading of a text. -/
def ReadError.ofStop (text : Text) : Stop → ReadError
  | .fault fault remaining =>
    let (line, column) := lineAndColumn (text.take (text.length - remaining))
    .malformed fault line column
  | .tooManyDigits error => .tooManyDigits error
  | .tooDeep compound => .tooDeep compound

/-- The value that a text writes. -/
def read (text : Text) : Except ReadError Json := (readAll text).mapError (.ofStop text)

end ForeignBindings.Json
