import ForeignBindings.Text.Printable

/-! Quoted texts, as messages show them: between single quotes, or between double quotes if the text
holds a single quote and no double one.  The quote and the backslash are escaped, and so is every
character that is not printable. -/

namespace ForeignBindings.Text

/-- The quote that stands around a text. -/
def quoteMark (text : Text) : Char :=
  if text.contains '\x27' && !text.contains '\x22' then '\x22' else '\x27'

/-- A character inside quotes. -/
def escapeIn (quote c : Char) : Text :=
  if c = quote ∨ c = '\x5c' then ['\x5c', c]
  else if c = '\n' then ['\x5c', 'n']
  else if c = '\r' then ['\x5c', 'r']
  else if c = '\t' then ['\x5c', 't']
  else if isPrintable c then [c]
  else if c.toNat ≤ 0xff then '\x5c' :: 'x' :: hexadecimal 2 c.toNat
  else if c.toNat ≤ 0xffff then '\x5c' :: 'u' :: hexadecimal 4 c.toNat
  else '\x5c' :: 'U' :: hexadecimal 8 c.toNat

/-- The text between quotes, with escapes. -/
def quoted (text : Text) : Text :=
  quoteMark text :: (text.flatMap (escapeIn (quoteMark text)) ++ [quoteMark text])

end ForeignBindings.Text
