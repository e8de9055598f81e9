import ForeignBindings.Text.Basic

/-! White space: the characters of Unicode's white-space class together with the four information
separators, and the cuts of a text at them. -/

namespace ForeignBindings

def isBlank (c : Char) : Bool :=
  let n := c.toNat
  (9 ≤ n && n ≤ 13) || (28 ≤ n && n ≤ 32) || n == 0x85 || n == 0xa0 || n == 0x1680 ||
    (0x2000 ≤ n && n ≤ 0x200a) || n == 0x2028 || n == 0x2029 || n == 0x202f || n == 0x205f ||
    n == 0x3000

namespace Text

/-- The text from its first character that is not blank. -/
def trimStart (text : Text) : Text := text.dropWhile isBlank

/-- The text up to its last character that is not blank. -/
def trimEnd (text : Text) : Text := (text.reverse.dropWhile isBlank).reverse

/-- The text without blanks at its two ends. -/
def trim (text : Text) : Text := text.trimStart.trimEnd

/-- The maximal runs of characters that are not blank. -/
def words (text : Text) : List Text := (text.fields isBlank).filter (· ≠ [])

end Text

end ForeignBindings
