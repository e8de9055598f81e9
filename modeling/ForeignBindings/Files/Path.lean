import ForeignBindings.Text.Basic

/-! Paths.  A path starts at the working directory, at the root, or at the separate root that two
slashes name, and goes on through names; empty names and single dots are dropped when a path is
read, and double dots stay until it is normalised. -/

namespace ForeignBindings

/-- Where a path starts. -/
inductive Anchor
  | here
  | root
  | doubleRoot
  deriving DecidableEq

/-- A path: where it starts, and the names from there on. -/
structure Path where
  anchor : Anchor
  parts : List Text
  deriving DecidableEq

def Anchor.text : Anchor → Text
  | .here => []
  | .root => ['/']
  | .doubleRoot => ['/', '/']

namespace Path

/-- The name of the directory that holds another one. -/
def parentName : Text := ['.', '.']

/-- A name that a path keeps. -/
def isPart (name : Text) : Bool := name != [] && name != ['.']

/-- The anchor of a text: three or more slashes count as one. -/
def anchorOf (text : Text) : Anchor :=
  match (text.takeWhile (· == '/')).length with
  | 0 => .here
  | 2 => .doubleRoot
  | _ => .root

/-- The path that a text names. -/
def ofText (text : Text) : Path := ⟨anchorOf text, (text.fields (· == '/')).filter isPart⟩

/-- The text of a path; the working directory itself is a dot. -/
def text (path : Path) : Text :=
  if path.anchor = .here ∧ path.parts = [] then ['.']
  else path.anchor.text ++ Text.join ['/'] path.parts

/-- The path `right` as seen from `left`; one that has an anchor of its own is unchanged. -/
def join (left right : Path) : Path :=
  if right.anchor = .here then ⟨left.anchor, left.parts ++ right.parts⟩ else right

/-- The entry of the given name in a directory. -/
def child (path : Path) (name : Text) : Path := ⟨path.anchor, path.parts ++ [name]⟩

/-- The last name of a path; the start of a path has none. -/
def name (path : Path) : Text := path.parts.getLast?.getD []

/-- The path without its last name. -/
def parent (path : Path) : Path := ⟨path.anchor, path.parts.dropLast⟩

/-- The name before its last dot, and the rest from that dot on; a dot that is the first or the
last character cuts nothing off. -/
def cutSuffix (name : Text) : Text × Text :=
  let tail := name.reverse.takeWhile (· != '.')
  let stem := name.length - tail.length - 1
  if 0 < stem ∧ tail ≠ [] then (name.take stem, name.drop stem) else (name, [])

/-- What stands in the last name from its last dot on. -/
def suffix (path : Path) : Text := (cutSuffix path.name).2

/-- The path without the suffix of its last name. -/
def withoutSuffix (path : Path) : Path :=
  ⟨path.anchor, path.parts.dropLast ++ (path.parts.getLast?.map fun n => (cutSuffix n).1).toList⟩

/-- Names with each double dot and the name before it taken away; nothing lies above the start. -/
def normalParts (parts : List Text) : List Text :=
  parts.foldl (fun done name => if name = parentName then done.dropLast else done ++ [name]) []

/-- The path from an absolute working directory, without double dots. -/
def absolute (directory path : Path) : Path :=
  let whole := directory.join path
  ⟨whole.anchor, normalParts whole.parts⟩

/-- A name in the path holds the null character, which no file has in its name. -/
def hasNull (path : Path) : Bool := path.parts.any (·.contains '\x00')

/-- The path from an absolute working directory, from the one root that there is and without double
dots; `none` if no file can have the path. -/
def resolve? (directory path : Path) : Option Path :=
  if path.hasNull then none
  else some ⟨.root, (absolute directory path).parts⟩

end Path

end ForeignBindings
