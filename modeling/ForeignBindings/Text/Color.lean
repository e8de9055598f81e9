import ForeignBindings.Text.Basic

/-! Colours on a terminal. -/

namespace ForeignBindings

/-- How text looks on a terminal. -/
inductive Ink
  | plain
  | bold
  | gray
  | red
  | green
  | yellow
  | blue
  | cyan
  deriving DecidableEq

def Ink.number : Ink → Nat
  | .plain => 0
  | .bold => 1
  | .gray => 90
  | .red => 91
  | .green => 92
  | .yellow => 93
  | .blue => 94
  | .cyan => 96

/-- Whether output is coloured. -/
structure Palette where
  colored : Bool
  deriving DecidableEq

/-- What switches to a look; nothing without colours. -/
def Palette.ink (palette : Palette) (ink : Ink) : Text :=
  if palette.colored then '\x1b' :: '\x5b' :: (Text.ofNat ink.number ++ ['m']) else []

end ForeignBindings
