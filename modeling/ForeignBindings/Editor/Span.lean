import ForeignBindings.Declaration.Basic

/-! Places in a document as editors count them, from zero and in numbers of 31 bits.  The protocol
checks the numbers; the documents here are taken to be short enough for all of theirs. -/

namespace ForeignBindings.Editor

/-- A place in a document: a line and a character, from zero. -/
structure Place where
  line : Nat
  character : Nat
  deriving DecidableEq

/-- The part of a document between two places. -/
structure Span where
  start : Place
  stop : Place
  deriving DecidableEq

/-- The largest number of a place. -/
def maxNumber : Int := 2147483647

/-- A number of a place that is negative or too large. -/
inductive PlaceFault
  | line (value : Int)
  | character (value : Int)
  deriving DecidableEq

def PlaceFault.message : PlaceFault → Text
  | .line value => about "line".toList value
  | .character value => about "character".toList value
where
  /-- The number of the given name has a value out of range. -/
  about (name : Text) (value : Int) : Text :=
    "Position.".toList ++ name ++ " should be in range [0:".toList ++ Text.ofInt maxNumber ++
      "], but was ".toList ++ Text.ofInt value ++ ['.']

/-- The number is one of a place. -/
def inRange (value : Int) : Bool := 0 ≤ value && value ≤ maxNumber

/-- The place with the given line and character, if both are in range. -/
def Place.make (line character : Int) : Except PlaceFault Place :=
  if !inRange line then .error (.line line)
  else if !inRange character then .error (.character character)
  else .ok ⟨line.toNat, character.toNat⟩

/-- The span as the protocol takes it: every number in it must be one of a place. -/
def Span.checked (span : Span) : Except PlaceFault Span := do
  let start ← Place.make span.start.line span.start.character
  let stop ← Place.make span.stop.line span.stop.character
  return ⟨start, stop⟩

def keywordLength : Nat := 8

/-- The span of a keyword that stands at a line and a column from one; smaller numbers count as
one. -/
def keywordSpan (line column : Int) : Span :=
  let line := (line - 1).toNat
  let character := (column - 1).toNat
  ⟨⟨line, character⟩, ⟨line, character + keywordLength⟩⟩

/-- The span of the keyword of a declaration. -/
def spanOf (d : Declaration) : Span := keywordSpan d.line d.column

end ForeignBindings.Editor
