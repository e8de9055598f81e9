import ForeignBindings.CommandLine.Run

/-! The program.  It reads the files that an order is about into a tree, carries the order out on
that tree, and puts out what comes of it.  It starts no other program, so a check finds no
compiler. -/

namespace ForeignBindings.Outside

/-- The file or the directory at a path, if it can be read; ignored entries are left out. -/
partial def load (path : String) : IO (Option FileTree) := do
  try
    let place ← IO.FS.realPath path
    if ← place.isDir then
      let mut entries : Catalog FileTree := []
      for entry in ← place.readDir do
        unless isIgnored entry.fileName.toList do
          if let some tree ← load (path ++ "/" ++ entry.fileName) then
            entries := entries.insert entry.fileName.toList tree
      return some (.directory entries)
    else return some (.file (← IO.FS.readBinFile path).toList)
  catch _ => return none

/-- The files with those at more paths. -/
def loadAll (files : FileSystem) : List Path → IO FileSystem
  | [] => return files
  | path :: rest => do
    let place := Path.absolute files.directory path
    match ← load (String.ofList place.text) with
    | some tree => loadAll { files with tree := FileTree.put tree place.parts files.tree } rest
    | none => loadAll files rest

/-- The variables that the program looks at. -/
def environment : IO Environment := do
  let names := ["BINDCHECK_TSC", "BINDCHECK_TSCONFIG", "BINDCHECK_TIMEOUT"]
  let values ← names.mapM fun name => do
    return (← IO.getEnv name).map fun value => (name.toList, value.toList)
  return values.filterMap id

/-- The files that a check looks at: the configurations on the way up, and, once these name a
project, its sources and what the compiler needs. -/
def checkFiles (files : FileSystem) (options : Options) : IO FileSystem := do
  match options.start files.directory with
  | .error _ => return files
  | .ok start =>
    let above ← loadAll files start.configurationCandidates
    match Project.above above start with
    | .ok (some project) =>
      loadAll above
        (project.sourceDirectories ++
          [Compiler.installedIn project.root,
           options.configurationPath?.getD (project.root.child Compiler.configurationName)])
    | _ => return above

/-- The files that an order is about. -/
def orderFiles (files : FileSystem) (known : Environment) : Option CommandLine.Command →
    IO FileSystem
  | some (.check a) =>
    match Options.ofEnvironment known with
    | .ok options => checkFiles files (options.override a.options)
    | .error _ => return files
  | some (.scan a) => loadAll files [a.input]
  | some (.tokens input) => loadAll files [input]
  | _ => return files

/-- What surrounds the program when it is about to carry out a command line. -/
def surroundings (words : List Text) : IO Host := do
  let directory ← IO.FS.realPath "."
  let bare : FileSystem := .ofTree .empty (.ofText directory.toString.toList)
  let known ← environment
  let files ← match CommandLine.readOrder words with
    | .ok order => orderFiles bare known order.command
    | .error _ => pure bare
  return ⟨files, known, none, fun _ => .notFound, ["probe".toList], fun _ => .accepts⟩

/-- Output is coloured on a terminal, unless the environment forbids it. -/
def palette : IO Palette := do
  let isTerminal ← (← IO.getStdout).isTty
  return ⟨isTerminal && ((← IO.getEnv "NO_COLOR").getD "") == ""⟩

end ForeignBindings.Outside

open ForeignBindings in
/-- Carries out a command line. -/
def main (arguments : List String) : IO UInt32 := do
  let words := arguments.map String.toList
  let run := CommandLine.run (← Outside.palette) (← Outside.surroundings words) words
  match run.outcome with
  | .ok output =>
    (← IO.getStdout).putStr (String.ofList output.output)
    (← IO.getStderr).putStr (String.ofList output.errors)
    return UInt32.ofNat output.status
  | .error fault =>
    (← IO.getStderr).putStrLn (String.ofList fault.message)
    return 1
