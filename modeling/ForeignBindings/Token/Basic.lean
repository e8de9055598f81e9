import ForeignBindings.Nesting.Depth

/-! Tokens.  A token carries the blanks before it and its own text, so a token list concatenates to
the source that it was read from. -/

namespace ForeignBindings

/-- A place in a source: how many characters stand before it, and its line and column from one. -/
structure Position where
  offset : Nat
  line : Nat
  column : Nat
  deriving DecidableEq

namespace Position

/-- The place of the first character. -/
def start : Position := ⟨0, 1, 1⟩

/-- The place after a character; only a line feed begins a line. -/
def step (p : Position) (c : Char) : Position :=
  if c = '\n' then ⟨p.offset + 1, p.line + 1, 1⟩ else ⟨p.offset + 1, p.line, p.column + 1⟩

/-- The place after a text. -/
def advance (p : Position) (text : Text) : Position := text.foldl step p

end Position

/-- An attribute: its name, and its arguments if it has an argument list. -/
structure Decorator where
  name : Text
  args : Option (List Text)
  deriving DecidableEq

/-- What a token is; a literal carries its contents. -/
inductive Lexeme
  | endOfFile
  | string (contents : Text)
  | char (contents : Text)
  | number
  | identifier
  | typeVariable
  | external
  | attribute (decorator : Decorator)
  | bracket (bracket : Bracket)
  | colon
  | assign
  | fatArrow
  | comma
  | dot
  | other
  | comment
  deriving DecidableEq

def Bracket.name (b : Bracket) : Text :=
  (if b.opens then ['L'] else ['R']) ++
    match b.shape with
    | .round => "PAREN".toList
    | .angle => "ANGLE".toList
    | .curly => "BRACE".toList
    | .square => "BRACKET".toList

def Lexeme.name : Lexeme → Text
  | .endOfFile => "EOF".toList
  | .string _ => "STRING".toList
  | .char _ => "CHAR".toList
  | .number => "NUMBER".toList
  | .identifier => "IDENTIFIER".toList
  | .typeVariable => "TYPE_VARIABLE".toList
  | .external => "EXTERNAL".toList
  | .attribute _ => "ATTRIBUTE".toList
  | .bracket b => b.name
  | .colon => "COLON".toList
  | .assign => "ASSIGN".toList
  | .fatArrow => "FAT_ARROW".toList
  | .comma => "COMMA".toList
  | .dot => "DOT".toList
  | .other => "PUNCT".toList
  | .comment => "COMMENT".toList

/-- A token: what it is, the blanks before it, its text, and where the text starts. -/
structure Token where
  lexeme : Lexeme
  leading : Text
  text : Text
  start : Position
  deriving DecidableEq

namespace Token

/-- The offset after the token's last character. -/
def stop (t : Token) : Nat := t.start.offset + t.text.length

def isComment (t : Token) : Bool := t.lexeme == .comment

def isBracket (t : Token) : Bool :=
  match t.lexeme with
  | .bracket _ => true
  | _ => false

/-- The depth after the token. -/
def feed (d : Depth) (t : Token) : Depth :=
  match t.lexeme with
  | .bracket b => d.step b
  | _ => d

end Token

/-- The source that tokens were read from. -/
def sourceOf (tokens : List Token) : Text := tokens.flatMap fun t => t.leading ++ t.text

end ForeignBindings
