import ForeignBindings.Text.Basic

/-! Brackets nest in four shapes, and each shape is counted for itself: a closing bracket of one
shape neither closes nor disturbs another. -/

namespace ForeignBindings

/-- The shape of a bracket. -/
inductive Shape
  | round
  | angle
  | curly
  | square
  deriving DecidableEq

/-- A bracket: its shape, and whether it opens. -/
structure Bracket where
  shape : Shape
  opens : Bool
  deriving DecidableEq

def bracket? (c : Char) : Option Bracket :=
  if c = '(' then some ⟨.round, true⟩
  else if c = ')' then some ⟨.round, false⟩
  else if c = '<' then some ⟨.angle, true⟩
  else if c = '>' then some ⟨.angle, false⟩
  else if c = '\x7b' then some ⟨.curly, true⟩
  else if c = '\x7d' then some ⟨.curly, false⟩
  else if c = '\x5b' then some ⟨.square, true⟩
  else if c = '\x5d' then some ⟨.square, false⟩
  else none

/-- For each shape, how many more brackets have opened than closed. -/
structure Depth where
  round : Int
  angle : Int
  curly : Int
  square : Int
  deriving DecidableEq

namespace Depth

/-- No bracket has been read. -/
def zero : Depth := ⟨0, 0, 0, 0⟩

/-- The count of one shape. -/
def count (d : Depth) : Shape → Int
  | .round => d.round
  | .angle => d.angle
  | .curly => d.curly
  | .square => d.square

/-- The depth after a bracket. -/
def step (d : Depth) (b : Bracket) : Depth :=
  let change : Int := if b.opens then 1 else -1
  match b.shape with
  | .round => { d with round := d.round + change }
  | .angle => { d with angle := d.angle + change }
  | .curly => { d with curly := d.curly + change }
  | .square => { d with square := d.square + change }

/-- The depth after a character; one that is no bracket changes nothing. -/
def feed (d : Depth) (c : Char) : Depth :=
  match bracket? c with
  | some b => d.step b
  | none => d

/-- The depth after a text: only a text of a single character can be a bracket. -/
def feedText (d : Depth) : Text → Depth
  | [c] => d.feed c
  | _ => d

/-- Every shape has closed as often as it has opened. -/
def atTop (d : Depth) : Bool := d.round == 0 && d.angle == 0 && d.curly == 0 && d.square == 0

/-- Some shape has closed more often than it has opened. -/
def underflowed (d : Depth) : Bool := d.round < 0 || d.angle < 0 || d.curly < 0 || d.square < 0

/-- The depths after each of the texts in turn. -/
def history (d : Depth) : List Text → List Depth
  | [] => []
  | text :: rest => d.feedText text :: history (d.feedText text) rest

end Depth

end ForeignBindings
