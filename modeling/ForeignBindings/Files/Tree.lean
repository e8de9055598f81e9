import ForeignBindings.Files.Fault
import ForeignBindings.Text.Catalog
import ForeignBindings.Text.Lines

/-! Trees of files, and what the system lets a user see of one.  A path is followed name by name:
what has a name after it must be a directory, and double dots lead back to the directory above.
Names and paths have a greatest length, counted in bytes: a path that is too long is refused at
once, a name when it is looked up.  Anything else about a path may be refused for want of
permission. -/

namespace ForeignBindings

/-- A file with its bytes, or a directory with its entries. -/
inductive FileTree
  | file (bytes : List UInt8)
  | directory (entries : List (Text × FileTree))
  deriving Inhabited

namespace FileTree

def empty : FileTree := .directory []

def isDirectory : FileTree → Bool
  | .directory _ => true
  | .file _ => false

def entries : FileTree → Catalog FileTree
  | .directory es => es
  | .file _ => []

/-- The tree with `new` at the end of the names; directories on the way are made. -/
def put (new : FileTree) : List Text → FileTree → FileTree
  | [], _ => new
  | name :: rest, tree =>
    .directory
      (Catalog.insert name (put new rest ((tree.entries.lookup name).getD empty)) tree.entries)

/-- The tree with the entries of the directory at the end of the names changed. -/
def alter (change : Catalog FileTree → Catalog FileTree) :
    List Text → FileTree → FileTree
  | _, .file bytes => .file bytes
  | [], .directory es => .directory (change es)
  | name :: rest, .directory es =>
    .directory (es.map fun (other, tree) =>
      (other, if other = name then alter change rest tree else tree))

def maxNameSize : Nat := 255

/-- What the names lead to from `here`, where `above` are the directories above, nearest first. -/
def follow (above : List FileTree) (here : FileTree) : List Text → Except Refusal FileTree
  | [] => .ok here
  | name :: rest =>
    match here with
    | .file _ => .error .notDirectory
    | .directory es =>
      if name = Path.parentName then
        match above with
        | [] => follow [] here rest
        | up :: more => follow more up rest
      else if maxNameSize < Utf8.size name then .error .nameTooLong
      else match es.lookup name with
        | some next => follow (here :: above) next rest
        | none => .error .notFound

end FileTree

/-- What is asked about a path: what is there, which entries the directory there has, or what the
file there holds. -/
inductive Access
  | look
  | list
  | read
  deriving DecidableEq

/-- What a walk through a tree is for. -/
inductive Search
  | directories
  | sources

/-- How many levels down walks can go, each level being one more call inside the others and inside
those that have led to the walk, and what is said where there is one more. -/
structure WalkLimit where
  levels : Search → Nat
  wording : Text

/-- All files there are, and the working directory, an absolute path; what is permitted with a path;
and how deep a walk can go. -/
structure FileSystem where
  tree : FileTree
  directory : Path
  permits : Access → Path → Bool
  limit : WalkLimit

namespace FileSystem

/-- The files of a tree, with everything permitted and with room for walks as deep as they usually
can be. -/
def ofTree (tree : FileTree) (directory : Path) : FileSystem :=
  ⟨tree, directory, fun _ _ => true, ⟨fun _ => 980, "maximum recursion depth exceeded".toList⟩⟩

def maxPathSize : Nat := 4095

/-- What a path leads to, if the request for it is permitted; nothing has a null character in its
path. -/
def find (fs : FileSystem) (access : Access) (path : Path) : Except Refusal FileTree :=
  if path.hasNull then .error .notFound
  else if maxPathSize < Utf8.size path.text then .error .nameTooLong
  else if !fs.permits access path then .error .permissionDenied
  else fs.tree.follow [] (fs.directory.join path).parts

/-- What is at a path, if anything is; that the path leads nowhere is no error, any other refusal
is. -/
def look (fs : FileSystem) (path : Path) : Except SystemError (Option FileTree) :=
  match fs.find .look path with
  | .ok tree => .ok (some tree)
  | .error .notFound | .error .notDirectory => .ok none
  | .error refusal => .error (.about refusal path.text)

/-- Something is at the path. -/
def contains (fs : FileSystem) (path : Path) : Except SystemError Bool :=
  (fs.look path).map Option.isSome

def hasFile (fs : FileSystem) (path : Path) : Except SystemError Bool :=
  (fs.look path).map fun found => found.any fun tree => !tree.isDirectory

def hasDirectory (fs : FileSystem) (path : Path) : Except SystemError Bool :=
  (fs.look path).map fun found => found.any FileTree.isDirectory

/-- The names of the entries of the directory at a path, in increasing order. -/
def list (fs : FileSystem) (path : Path) : Except SystemError (List Text) :=
  match fs.find .list path with
  | .error refusal => .error (.about refusal path.text)
  | .ok (.file _) => .error (.about .notDirectory path.text)
  | .ok (.directory entries) => .ok (Catalog.sorted entries).names

/-- The text of the file at a path, with line feeds as its only line ends. -/
def read (fs : FileSystem) (path : Path) : Except ReadFault Text :=
  match fs.find .read path with
  | .error refusal => .error (.system (.about refusal path.text))
  | .ok (.directory _) => .error (.system (.about .isDirectory path.text))
  | .ok (.file bytes) => ((Utf8.decode bytes).mapError .undecodable).map Text.unifyNewlines

end FileSystem

end ForeignBindings
