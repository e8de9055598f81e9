import ForeignBindings.Text.Basic

/-! The words of a command line in the manner of a POSIX shell: blanks separate words, single quotes
keep everything, double quotes keep all but an escaped quote or backslash, and outside quotes a
backslash keeps the next character. -/

namespace ForeignBindings.ShellWords

/-- Why a command line has no words. -/
inductive Fault
  | openQuotation
  | nothingEscaped
  deriving DecidableEq

def Fault.message : Fault → Text
  | .openQuotation => "No closing quotation".toList
  | .nothingEscaped => "No escaped character".toList

/-- Where in a word the reader stands. -/
inductive Place
  | bare
  | within (quote : Char)
  | escaped
  | escapedWithin (quote : Char)

/-- A character between words. -/
def isSeparator (c : Char) : Bool := c == ' ' || c == '\t' || c == '\r' || c == '\n'

/-- The word read so far, put in front of the later ones; one without characters counts only if it
was quoted. -/
def emit (word : Text) (wasQuoted : Bool) (later : List Text) : List Text :=
  if word = [] ∧ ¬ wasQuoted then later else word :: later

/-- The words of the rest of a command line, after `word` of the current one. -/
def readFrom : Place → Text → Bool → Text → Except Fault (List Text)
  | .bare, word, wasQuoted, [] => .ok (emit word wasQuoted [])
  | .within _, _, _, [] => .error .openQuotation
  | .escaped, _, _, [] => .error .nothingEscaped
  | .escapedWithin _, _, _, [] => .error .nothingEscaped
  | .bare, word, wasQuoted, c :: rest =>
    if isSeparator c then (readFrom .bare [] false rest).map (emit word wasQuoted)
    else if c = '\x5c' then readFrom .escaped word wasQuoted rest
    else if c = '\x27' ∨ c = '\x22' then readFrom (.within c) word true rest
    else readFrom .bare (word ++ [c]) wasQuoted rest
  | .within quote, word, wasQuoted, c :: rest =>
    if c = quote then readFrom .bare word wasQuoted rest
    else if c = '\x5c' ∧ quote = '\x22' then readFrom (.escapedWithin quote) word wasQuoted rest
    else readFrom (.within quote) (word ++ [c]) wasQuoted rest
  | .escaped, word, wasQuoted, c :: rest => readFrom .bare (word ++ [c]) wasQuoted rest
  | .escapedWithin quote, word, wasQuoted, c :: rest =>
    let kept := if c = '\x5c' ∨ c = quote then [c] else ['\x5c', c]
    readFrom (.within quote) (word ++ kept) wasQuoted rest

/-- The words of a command line. -/
def split (line : Text) : Except Fault (List Text) := readFrom .bare [] false line

end ForeignBindings.ShellWords
