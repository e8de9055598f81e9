import ForeignBindings.Failure
import ForeignBindings.Files.Walk
import ForeignBindings.Json.Reader

/-! The project that a directory belongs to.  Its root is the nearest directory, from the start
upward, that holds a configuration; the configuration lists the directories with sources. -/

namespace ForeignBindings

/-- A project: its root, its configuration, and its source directories without repetition. -/
structure Project where
  root : Path
  configuration : Path
  sourceDirectories : List Path
  deriving DecidableEq

/-- A directory with sources, and whether the directories below it count as well. -/
structure SourceEntry where
  directory : Text
  nested : Bool
  deriving DecidableEq

namespace SourceEntry

/-- A value that asks for nested directories: true, one, or a word. -/
def asksForNested : Json → Bool
  | .bool value => value
  | .int value => value == 1
  | .real value => value == 1.0
  | .string value => value == "recurse".toList
  | _ => false

/-- The entry that a value writes: the name of a directory, or an object with one. -/
def ofJson? : Json → Option SourceEntry
  | .string directory => some ⟨directory, false⟩
  | value =>
    ((value.member? "dir".toList).bind Json.text?).map fun directory =>
      ⟨directory, (value.member? "subdirs".toList).any asksForNested⟩

/-- The entries of a configuration; a single one needs no list. -/
def ofConfiguration (configuration : Json) : List SourceEntry :=
  match configuration.member? "sources".toList with
  | none => []
  | some (.array items) => items.filterMap ofJson?
  | some value => (ofJson? value).toList

/-- The directories of an entry in a project. -/
def directories (fs : FileSystem) (root : Path) (entry : SourceEntry) :
    Except WalkFault (List Path) :=
  let directory := root.join (.ofText entry.directory)
  if entry.nested then (fs.directories directory).map (directory :: ·) else .ok [directory]

end SourceEntry

/-- The directories of entries in a project, each at its first place. -/
def FileSystem.sourceDirectories (fs : FileSystem) (root : Path) (entries : List SourceEntry) :
    Except WalkFault (List Path) :=
  (entries.flatMapM (SourceEntry.directories fs root)).map List.eraseDups

/-- A path and all directories above it, nearest first. -/
def Path.ancestors (path : Path) : List Path :=
  (List.range (path.parts.length + 1)).map fun n =>
    ⟨path.anchor, path.parts.take (path.parts.length - n)⟩

/-- The names of a configuration, the older one last. -/
def configurationNames : List Text := ["rescript.json".toList, "bsconfig.json".toList]

/-- The paths at which the configuration for a directory may be, nearest first. -/
def Path.configurationCandidates (start : Path) : List Path :=
  start.ancestors.flatMap fun directory => configurationNames.map directory.child

/-- The first of the paths at which there is a file. -/
def FileSystem.firstFile? (fs : FileSystem) : List Path → Except SystemError (Option Path)
  | [] => .ok none
  | path :: rest =>
    match fs.hasFile path with
    | .error e => .error e
    | .ok true => .ok (some path)
    | .ok false => fs.firstFile? rest

/-- The configuration nearest to a directory, from there upward. -/
def FileSystem.configuration? (fs : FileSystem) (start : Path) :
    Except SystemError (Option Path) :=
  fs.firstFile? start.configurationCandidates

/-- The fault of a configuration that cannot be read as JSON; only malformed text is a failure. -/
def Fault.ofConfiguration (path : Path) : Json.ReadError → Fault
  | .malformed fault line column =>
    .failure (.ofConfiguration
      ("Invalid JSON in ".toList ++ path.name ++ ": ".toList ++ fault.message ++
        " (line ".toList ++ Text.ofNat line ++ ", column ".toList ++ Text.ofNat column ++ [')'])
      (some path.text))
  | .tooManyDigits error => .tooManyDigits error
  | .tooDeep compound => .tooDeep compound

/-- The contents of a configuration. -/
def FileSystem.readConfiguration (fs : FileSystem) (path : Path) : Except Fault Json :=
  match fs.read path with
  | .error (.system e) =>
    .error (.failure (.ofConfiguration
      ("Cannot read ".toList ++ path.name ++ ": ".toList ++ e.message) (some path.text)))
  | .error (.undecodable e) => .error (.undecodable e)
  | .ok text => (Json.read text).mapError (.ofConfiguration path)

namespace Project

/-- The project of a configuration. -/
def ofConfiguration (fs : FileSystem) (path : Path) : Except Fault Project := do
  let contents ← fs.readConfiguration path
  let directories ← (fs.sourceDirectories path.parent
    (SourceEntry.ofConfiguration contents)).mapError .ofWalk
  return ⟨path.parent, path, directories⟩

/-- The project that a resolved directory belongs to, if it belongs to one. -/
def above (fs : FileSystem) (start : Path) : Except Fault (Option Project) :=
  match fs.configuration? start with
  | .error e => .error (.system e)
  | .ok none => .ok none
  | .ok (some path) => (ofConfiguration fs path).map some

/-- The project that a directory belongs to, if it belongs to one. -/
def find (fs : FileSystem) (start : Path) : Except Fault (Option Project) :=
  match Path.resolve? fs.directory start with
  | none => .error .nullInPath
  | some resolved => above fs resolved

end Project

end ForeignBindings
