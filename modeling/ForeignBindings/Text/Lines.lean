import ForeignBindings.Text.Basic

/-! Lines.  A text is cut into lines at every line boundary of Unicode, and a carriage return with
the line feed after it is one boundary.  Files are read with each carriage return turned into a
line feed. -/

namespace ForeignBindings

def isLineBreak (c : Char) : Bool :=
  let n := c.toNat
  (10 ≤ n && n ≤ 13) || (28 ≤ n && n ≤ 30) || n == 0x85 || n == 0x2028 || n == 0x2029

namespace Text

/-- The lines of a text without their ends; a boundary at the very end opens no further line. -/
def lines : Text → List Text
  | [] => []
  | '\r' :: '\n' :: rest => [] :: lines rest
  | c :: rest =>
    if isLineBreak c then [] :: lines rest
    else match lines rest with
      | [] => [[c]]
      | line :: more => (c :: line) :: more

/-- The text with line feeds for carriage returns, and one line feed for a carriage return and the
line feed after it. -/
def unifyNewlines : Text → Text
  | [] => []
  | '\r' :: '\n' :: rest => '\n' :: unifyNewlines rest
  | c :: rest => (if c = '\r' then '\n' else c) :: unifyNewlines rest

end Text

end ForeignBindings
