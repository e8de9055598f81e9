import ForeignBindings.Files.Tree

/-! The directories and the source files below a directory, depth first and in the order of their
names.  One walk finds either: it sorts the names in a directory, looks at each entry that it comes
by, and goes on below those that are directories.  Entries whose name starts with a dot, and
packages that are installed in the tree, are passed over, by a walk for source files before it looks
at them and by one for directories after.  Each level down is one more call inside the others. -/

namespace ForeignBindings

def implementationSuffix : Text := ".res".toList

def signatureSuffix : Text := ".resi".toList

def packagesName : Text := "node_modules".toList

/-- An entry that is passed over. -/
def isIgnored (name : Text) : Bool := name.head? == some '.' || name == packagesName

/-- The name of a source file. -/
def isSourceName (name : Text) : Bool :=
  let suffix := (Path.cutSuffix name).2
  suffix == implementationSuffix || suffix == signatureSuffix

namespace Search

/-- A walk looks at an entry with the given name. -/
def looksAt : Search → Text → Bool
  | .directories, _ => true
  | .sources, name => !isIgnored name

/-- A walk lists an entry that it has looked at, by its name and whether it is a directory. -/
def lists : Search → Text → Bool → Bool
  | .directories, name, isDirectory => isDirectory && !isIgnored name
  | .sources, name, isDirectory => !isDirectory && isSourceName name

end Search

namespace FileSystem

/-- The names in the directory at a path, in increasing order; none if no directory is there. -/
def names (fs : FileSystem) (path : Path) : Except SystemError (List Text) := do
  if ← fs.hasDirectory path then fs.list path else return []

/-- What the entries that a walk comes by in a directory contribute, one after the other. -/
def among (fs : FileSystem) (search : Search) (directory : Path)
    (visit : Text → Except WalkFault (List Path)) : Except WalkFault (List Path) := do
  let names ← (fs.names directory).mapError .system
  (names.filter search.looksAt).flatMapM visit

/-- What a walk lists below a path, going down so many levels. -/
def walk (fs : FileSystem) (search : Search) : Nat → Path → Except WalkFault (List Path)
  | 0, directory => fs.among search directory fun _ => .error (.tooDeep fs.limit.wording)
  | levels + 1, directory => fs.among search directory fun name => do
    let entry := directory.child name
    let isDirectory ← (fs.hasDirectory entry).mapError .system
    let below ← (if isDirectory && !isIgnored name then fs.walk search levels entry else .ok [])
    return (if search.lists name isDirectory then [entry] else []) ++ below

/-- The directories below a path; none if no directory is there. -/
def directories (fs : FileSystem) (path : Path) : Except WalkFault (List Path) :=
  fs.walk .directories (fs.limit.levels .directories) path

/-- The source files below a path; none if no directory is there. -/
def sources (fs : FileSystem) (path : Path) : Except WalkFault (List Path) :=
  fs.walk .sources (fs.limit.levels .sources) path

end FileSystem

/-- A selection of one file for each module, after one more file.  A module is a path without its
suffix; a signature takes the place of what was selected, and the order stays that in which the
modules were met. -/
def select (selected : List (Path × Path)) (file : Path) : List (Path × Path) :=
  let key := file.withoutSuffix
  if selected.any fun (other, _) => other == key then
    if file.suffix = signatureSuffix then
      selected.map fun (other, old) => (other, if other = key then file else old)
    else selected
  else selected ++ [(key, file)]

/-- One file for each module among files, in the order in which the modules are met. -/
def selectModules (files : List Path) : List Path := (files.foldl select []).map Prod.snd

/-- One file for each module among the source files below directories. -/
def FileSystem.modules (fs : FileSystem) (directories : List Path) :
    Except WalkFault (List Path) :=
  (directories.flatMapM fs.sources).map selectModules

end ForeignBindings
