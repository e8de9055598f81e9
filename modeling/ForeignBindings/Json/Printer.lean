import ForeignBindings.Decimal.Shortest
import ForeignBindings.Json.Value

/-! The printed form of JSON.  Strings are pure ASCII: every other character is escaped, as a
surrogate pair if it lies beyond the basic plane.  A value is printed on one line, or with two
blanks of indentation a level. -/

namespace ForeignBindings.Json

/-- An escape of sixteen bits. -/
def escape16 (n : Nat) : Text := '\x5c' :: 'u' :: Text.hexadecimal 4 n

/-- A character inside a string. -/
def escapeChar (c : Char) : Text :=
  if c = '\x22' ∨ c = '\x5c' then ['\x5c', c]
  else if c = '\n' then ['\x5c', 'n']
  else if c = '\r' then ['\x5c', 'r']
  else if c = '\t' then ['\x5c', 't']
  else if c = '\x08' then ['\x5c', 'b']
  else if c = '\x0c' then ['\x5c', 'f']
  else if ' ' ≤ c ∧ c ≤ '~' then [c]
  else if c.toNat < 0x10000 then escape16 c.toNat
  else
    let offset := c.toNat - 0x10000
    escape16 (0xd800 + offset / 0x400) ++ escape16 (0xdc00 + offset % 0x400)

/-- A string with its quotes. -/
def quote (text : Text) : Text := '\x22' :: (text.flatMap escapeChar ++ ['\x22'])

/-- A number with a fraction or an exponent; the names of the values that JSON lacks are capital. -/
def realText (x : Float) : Text :=
  if x.isNaN then "NaN".toList
  else if x.isInf then (if x < 0 then "-Infinity".toList else "Infinity".toList)
  else Digits.full x

/-- How the parts of an array or object are set off: what stands after the opening bracket, between
two parts, and before the closing bracket. -/
structure Frame where
  opening : Text
  between : Text
  closing : Text

/-- Parts in brackets; without parts the brackets touch. -/
def Frame.enclose (frame : Frame) (left right : Char) (parts : List Text) : Text :=
  if parts = [] then [left, right]
  else left :: (frame.opening ++ Text.join frame.between parts ++ frame.closing ++ [right])

/-- On one line, parts are separated by a comma and a blank. -/
def Frame.line : Frame := ⟨[], ", ".toList, []⟩

/-- A new line indented to a level. -/
def newLine (level : Nat) : Text := '\n' :: List.replicate (2 * level) ' '

/-- Indented, every part has a line of its own, one level further in than the brackets. -/
def Frame.indented (level : Nat) : Frame :=
  ⟨newLine (level + 1), ',' :: newLine (level + 1), newLine level⟩

mutual

/-- The value at a level of nesting, with the frame of each level given. -/
def print (frame : Nat → Frame) (level : Nat) : Json → Text
  | .null => "null".toList
  | .bool value => if value then "true".toList else "false".toList
  | .int value => Text.ofInt value
  | .real value => realText value
  | .string value => quote value
  | .array items => (frame level).enclose '\x5b' '\x5d' (printItems frame (level + 1) items)
  | .object members => (frame level).enclose '\x7b' '\x7d' (printMembers frame (level + 1) members)

def printItems (frame : Nat → Frame) (level : Nat) : List Json → List Text
  | [] => []
  | item :: rest => print frame level item :: printItems frame level rest

def printMembers (frame : Nat → Frame) (level : Nat) : List (Text × Json) → List Text
  | [] => []
  | (key, value) :: rest =>
    (quote key ++ ": ".toList ++ print frame level value) :: printMembers frame level rest

end

/-- The value on one line. -/
def compact (value : Json) : Text := print (fun _ => .line) 0 value

/-- The value with two blanks of indentation a level. -/
def pretty (value : Json) : Text := print .indented 0 value

end ForeignBindings.Json
