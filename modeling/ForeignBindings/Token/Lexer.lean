import ForeignBindings.Nesting.Piece
import ForeignBindings.Token.Basic

/-! The tokens of a source.  The lexer refuses nothing: a character that starts nothing else is a
token of its own, and an open string or block comment runs to the end of the source.  Each reader
says how many characters a token has beyond its first, so every step consumes at least one. -/

namespace ForeignBindings

/-- A character of an identifier; a prime may stand in one. -/
def isIdentifierChar (c : Char) : Bool := c.isAlphanum || c == '_' || c == '\x27'

/-- A character that an identifier can start with. -/
def isIdentifierStart (c : Char) : Bool := c.isAlpha || c == '_'

namespace Lexer

/-- How far a block comment goes into the text after its opening mark. -/
def blockCommentTail : Text → Nat
  | [] => 0
  | '*' :: '/' :: _ => 2
  | _ :: rest => blockCommentTail rest + 1

/-- The length of a dotted name: a dot belongs to it if an identifier starts after the dot. -/
def dottedNameLength : Text → Nat
  | [] => 0
  | c :: rest =>
    if isIdentifierChar c || (c == '.' && rest.head?.any isIdentifierStart) then
      dottedNameLength rest + 1
    else 0

/-- How many characters there are up to the parenthesis that closes an argument list, inside which
`depth` further parentheses are open. -/
def argumentsLength? : Nat → List Piece → Option Nat
  | _, [] => none
  | depth, piece :: rest =>
    if piece = .plain '(' then (argumentsLength? (depth + 1) rest).map (· + 1)
    else if piece = .plain ')' then
      match depth with
      | 0 => some 0
      | shallower + 1 => (argumentsLength? shallower rest).map (· + 1)
    else (argumentsLength? depth rest).map (· + piece.text.length)

/-- The attribute whose mark stands before `rest`, and how far it goes: a name, and an argument list
if a parenthesis follows; an argument list that never closes makes it no attribute. -/
def attribute? (rest : Text) : Option (Decorator × Nat) :=
  if rest.head?.any isIdentifierStart then
    let nameLength := dottedNameLength rest
    let name := rest.take nameLength
    let blanks := ((rest.drop nameLength).takeWhile isBlank).length
    match rest.drop (nameLength + blanks) with
    | '(' :: inside =>
      (argumentsLength? 0 (Text.pieces inside)).map fun n =>
        (⟨name, some (Text.splitTop (inside.take n) [','])⟩, nameLength + blanks + n + 2)
    | _ => some (⟨name, none⟩, nameLength)
  else none

/-- A word: a number if it starts with a digit, the keyword, or an identifier. -/
def wordLexeme (word : Text) : Lexeme :=
  if word.head?.any Char.isDigit then .number
  else if word = "external".toList then .external
  else .identifier

/-- Punctuation of a single character. -/
def markLexeme (c : Char) : Lexeme :=
  match bracket? c with
  | some b => .bracket b
  | none =>
    if c = ':' then .colon
    else if c = '=' then .assign
    else if c = ',' then .comma
    else if c = '.' then .dot
    else .other

/-- The token that starts with the character `c`, which is not blank, and how many characters of
`rest` belong to it. -/
def read (c : Char) (rest : Text) : Lexeme × Nat :=
  if c = '/' ∧ rest.head? = some '/' then
    (.comment, (rest.takeWhile (· != '\n')).length)
  else if c = '/' ∧ rest.head? = some '*' then
    (.comment, blockCommentTail (rest.drop 1) + 1)
  else if c = '@' then
    match attribute? rest with
    | some (decorator, n) => (.attribute decorator, n)
    | none => (.other, 0)
  else if c = '\x22' ∨ c = '\x60' then
    let (n, closed) := stringTail c rest
    (.string (rest.take (if closed then n - 1 else n)), n)
  else if c = '\x27' then
    match charTail? rest with
    | some n => (.char (rest.take (n - 1)), n)
    | none =>
      let name := rest.takeWhile isIdentifierChar
      (if name = [] then .other else .typeVariable, name.length)
  else if isIdentifierChar c then
    let more := rest.takeWhile isIdentifierChar
    (wordLexeme (c :: more), more.length)
  else if c = '=' ∧ rest.head? = some '>' then (.fatArrow, 1)
  else (markLexeme c, 0)

/-- The tokens of the rest of a source, of which the blanks `leading` have been read and whose next
character stands at `p`. -/
def tokensFrom (leading : Text) (p : Position) : Text → List Token
  | [] => [⟨.endOfFile, leading, [], p⟩]
  | c :: rest =>
    if isBlank c then tokensFrom (leading ++ [c]) (p.step c) rest
    else
      let (lexeme, n) := read c rest
      let text := c :: rest.take n
      ⟨lexeme, leading, text, p⟩ :: tokensFrom [] (p.advance text) (rest.drop n)
termination_by text => text.length
decreasing_by all_goals simp only [List.length_drop, List.length_cons]; omega

end Lexer

/-- The tokens of a source, closed by the end of the file. -/
def tokenize (source : Text) : List Token := Lexer.tokensFrom [] .start source

end ForeignBindings
