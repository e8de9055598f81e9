import ForeignBindings.Nesting.Depth
import ForeignBindings.Nesting.Literal
import ForeignBindings.Text.Blank

/-! The pieces of a text that matter to nesting: literals, function arrows, and single characters.
The pieces of a text concatenate to the text.  A piece stands at the top level if every bracket
before it is closed, and only such pieces separate; literals never do. -/

namespace ForeignBindings

/-- A piece of a text. -/
inductive Piece
  | literal (text : Text)
  | arrow
  | plain (c : Char)
  deriving DecidableEq

namespace Piece

/-- The function arrow, whose second character closes no bracket. -/
def arrowText : Text := ['=', '>']

def text : Piece → Text
  | .literal t => t
  | .arrow => arrowText
  | .plain c => [c]

/-- What a piece can be compared with a separator as; a literal is never one. -/
def separator? : Piece → Option Text
  | .literal _ => none
  | .arrow => some arrowText
  | .plain c => some [c]

/-- The depth after a piece. -/
def feed (d : Depth) : Piece → Depth
  | .plain c => d.feed c
  | _ => d

end Piece

namespace Text

/-- The pieces of a text. -/
def pieces : Text → List Piece
  | [] => []
  | c :: rest =>
    match literalTail? c rest with
    | some n => .literal (c :: rest.take n) :: pieces (rest.drop n)
    | none =>
      if c = '=' ∧ rest.head? = some '>' then .arrow :: pieces (rest.drop 1)
      else .plain c :: pieces rest
termination_by text => text.length
decreasing_by all_goals simp only [List.length_drop, List.length_cons]; omega

end Text

/-- The offsets and the texts of the pieces at the top level, literals left out, when `index`
characters have been read and `d` is the depth. -/
def topLevelFrom (index : Nat) (d : Depth) : List Piece → List (Nat × Text)
  | [] => []
  | piece :: rest =>
    let later := topLevelFrom (index + piece.text.length) (piece.feed d) rest
    match piece.separator? with
    | some lexeme => if d.atTop then (index, lexeme) :: later else later
    | none => later

/-- The untrimmed parts of pieces between the separators at the top level; `d` is the depth before
them. -/
def cutFrom (separator : Text) (d : Depth) : List Piece → List Text
  | [] => [[]]
  | piece :: rest =>
    let later := cutFrom separator (piece.feed d) rest
    if d.atTop ∧ piece.separator? = some separator then [] :: later
    else match later with
      | [] => [piece.text]
      | part :: more => (piece.text ++ part) :: more

/-- Pieces close every bracket that they open, and none before it opens. -/
def balancedFrom (d : Depth) : List Piece → Bool
  | [] => d.atTop
  | piece :: rest => !(piece.feed d).underflowed && balancedFrom (piece.feed d) rest

namespace Text

/-- The offsets and the texts of the pieces of a text at the top level. -/
def topLevel (text : Text) : List (Nat × Text) := topLevelFrom 0 .zero text.pieces

/-- The offset of the first occurrence of a separator at the top level. -/
def findTop? (text separator : Text) : Option Nat :=
  (text.topLevel.find? fun (_, lexeme) => lexeme == separator).map Prod.fst

/-- The text before and the text after the first occurrence of a separator at the top level. -/
def cutAtTop? (text separator : Text) : Option (Text × Text) :=
  (text.findTop? separator).map fun index =>
    (text.take index, text.drop (index + separator.length))

/-- The parts of a text between the separators at the top level, as they stand. -/
def cutTop (text separator : Text) : List Text := cutFrom separator .zero text.pieces

/-- The trimmed parts of a text between the separators at the top level; a last part that is blank
is left out. -/
def splitTop (text separator : Text) : List Text :=
  let parts := (text.cutTop separator).map trim
  if parts.getLast? = some [] then parts.dropLast else parts

/-- Every bracket of a text outside literals is closed, and none is closed before it opens. -/
def isBalanced (text : Text) : Bool := balancedFrom .zero text.pieces

end Text

end ForeignBindings
