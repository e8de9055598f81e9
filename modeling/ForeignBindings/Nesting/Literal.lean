import ForeignBindings.Text.Basic

/-! Literals that hide brackets and separators.  A string runs to its quote, and a backslash in it
hides the next character; a character literal is one character, or an escape, between single
quotes.  The functions measure how far a literal goes beyond its opening quote. -/

namespace ForeignBindings

/-- A character that can open a literal. -/
def isQuote (c : Char) : Bool := c == '\x22' || c == '\x27' || c == '\x60'

/-- How many characters of the text after the opening quote belong to a string, and whether it is
closed; an open string runs to the end of the text. -/
def stringTail (quote : Char) : Text → Nat × Bool
  | [] => (0, false)
  | ['\x5c'] => (1, false)
  | '\x5c' :: _ :: rest =>
    let (n, closed) := stringTail quote rest
    (n + 2, closed)
  | c :: rest =>
    if c = quote then (1, true)
    else
      let (n, closed) := stringTail quote rest
      (n + 1, closed)

/-- How many characters of the text after a single quote belong to a character literal; `none` if
the quote opens none. -/
def charTail? : Text → Option Nat
  | [] => none
  | '\x5c' :: rest =>
    let more := rest.drop 1
    let inside := more.takeWhile fun c => c != '\x27' && c != '\n'
    if more[inside.length]? = some '\x27' then some (inside.length + 3) else none
  | c :: rest => if c ≠ '\x27' ∧ c ≠ '\n' ∧ rest.head? = some '\x27' then some 2 else none

/-- How far a literal that opens with `c` goes into the text after it. -/
def literalTail? (c : Char) (rest : Text) : Option Nat :=
  if c = '\x27' then charTail? rest
  else if isQuote c then some (stringTail c rest).1
  else none

/-- Why a literal cannot be looked for. -/
inductive SpanFault
  | startOutside
  deriving DecidableEq

def SpanFault.message : SpanFault → Text
  | .startOutside => "string index out of range".toList

/-- The offset after a character literal that starts at an offset. -/
def charLiteralEnd? (text : Text) (start : Nat) : Option Nat :=
  (charTail? (text.drop (start + 1))).map (start + 1 + ·)

/-- The offset after a string that starts at an offset, and whether the string is closed. -/
def stringSpan (text : Text) (start : Nat) : Except SpanFault (Nat × Bool) :=
  match text.drop start with
  | [] => .error .startOutside
  | quote :: rest =>
    let (n, closed) := stringTail quote rest
    .ok (start + 1 + n, closed)

/-- The offset after a literal of either kind that starts at an offset. -/
def literalEnd? (text : Text) (start : Nat) : Except SpanFault (Option Nat) :=
  match text.drop start with
  | [] => .error .startOutside
  | c :: rest => .ok ((literalTail? c rest).map (start + 1 + ·))

/-- The text to read from an offset, where in it the reading starts, and what is added to the
offsets that come of it. -/
structure Unrolled where
  text : Text
  start : Nat
  shift : Int

/-- How a text is read from an offset.  A negative offset counts from the end; what is read from
there goes on with the whole text once more. -/
def unroll (text : Text) : Int → Except SpanFault Unrolled
  | .ofNat start => .ok ⟨text, start, 0⟩
  | .negSucc n =>
    if n < text.length then
      .ok ⟨text.drop (text.length - (n + 1)) ++ text, 0, .negSucc n⟩
    else .error .startOutside

/-- The literals of each kind that start at an offset. -/
structure LiteralSpans where
  char : Option Int
  string : Int × Bool
  quoted : Option Int

/-- The literals that start at an offset, which may be negative. -/
def literalsAt (text : Text) (offset : Int) : Except SpanFault LiteralSpans := do
  let place ← unroll text offset
  let shifted (n : Nat) : Int := n + place.shift
  let (stop, closed) ← stringSpan place.text place.start
  let quoted ← literalEnd? place.text place.start
  return ⟨(charLiteralEnd? place.text place.start).map shifted, (shifted stop, closed),
    quoted.map shifted⟩

/-- The value without one pair of equal quotes around it; escapes stay as they are written. -/
def unquote (value : Text) : Text :=
  if 2 ≤ value.length ∧ (value.enclosedBy '\x22' '\x22' ∨ value.enclosedBy '\x27' '\x27') then
    value.inner 1
  else value

end ForeignBindings
