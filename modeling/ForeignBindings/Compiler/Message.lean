import ForeignBindings.Decimal.Literal
import ForeignBindings.Text.Blank
import ForeignBindings.Text.Lines

/-! The messages of a compiler.  A line of output is a message if it names a file, a place in it, a
code and a text; the name of the file is the shortest that leaves such a line.  Digits of every
script write the place, but not too many of them. -/

namespace ForeignBindings

/-- An error that a compiler reports: the file, the line and the column, the code, and the text. -/
structure CompilerMessage where
  file : Text
  line : Nat
  column : Nat
  code : Text
  text : Text
  deriving DecidableEq

namespace CompilerMessage

/-- The digits at the head of a text, and what follows them. -/
def number? (text : Text) : Option (Text × Text) :=
  match text.takeWhile isDecimalDigit with
  | [] => none
  | digits => some (digits, text.dropWhile isDecimalDigit)

/-- What a message writes after the name of its file. -/
structure Remainder where
  line : Text
  column : Text
  code : Text
  text : Text

/-- The parts of a message after the name of its file. -/
def remainder? (rest : Text) : Option Remainder := do
  let fromLine ← List.isPrefixOf? ['('] rest
  let (line, afterLine) ← number? fromLine
  let fromColumn ← List.isPrefixOf? [','] afterLine
  let (column, afterColumn) ← number? fromColumn
  let fromCode ← List.isPrefixOf? "): error TS".toList afterColumn
  let (code, afterCode) ← number? fromCode
  let text ← List.isPrefixOf? ": ".toList afterCode
  return ⟨line, column, code, text⟩

/-- How long the name of the file is and what the message writes after it, when the first `length`
characters of the line have been read as part of the name. -/
def split? (length : Nat) : Text → Option (Nat × Remainder)
  | [] => none
  | _ :: rest =>
    match remainder? rest with
    | some found => some (length + 1, found)
    | none => split? (length + 1) rest

def ofRemainder (file : Text) (r : Remainder) : Except Literal.TooManyDigits CompilerMessage := do
  let line ← Literal.natural r.line
  let column ← Literal.natural r.column
  return ⟨file, line, column, 'T' :: 'S' :: r.code, r.text.trim⟩

/-- The message of a line, if the line is one. -/
def ofLine? (line : Text) : Except Literal.TooManyDigits (Option CompilerMessage) :=
  match split? 0 line with
  | none => .ok none
  | some (length, r) => (ofRemainder (line.take length) r).map some

def all (output : Text) : Except Literal.TooManyDigits (List CompilerMessage) :=
  output.lines.filterMapM fun line => ofLine? (Text.trim line)

/-- What stands before the two types of a mismatch, and between them. -/
def mismatchOpening : Text := "Type '".toList

/-- What stands between the types of a mismatch. -/
def mismatchMiddle : Text := "' is not assignable to type '".toList

/-- The end of a mismatch: a quote, and perhaps a full stop. -/
def closesMismatch (text : Text) : Bool :=
  text.getLast? == some '\x27' || ['\x27', '.'].isSuffixOf text

/-- The text before the last middle of a mismatch after which the mismatch ends well. -/
def beforeMiddle? : Text → Option Text
  | [] => none
  | c :: rest =>
    match beforeMiddle? rest with
    | some before => some (c :: before)
    | none =>
      match List.isPrefixOf? mismatchMiddle (c :: rest) with
      | some last => if closesMismatch last then some [] else none
      | none => none

/-- The actual type in the text of a mismatch; of several readings, the one with the longest. -/
def actualType? (text : Text) : Option Text :=
  (List.isPrefixOf? mismatchOpening text).bind beforeMiddle?

end CompilerMessage

end ForeignBindings
