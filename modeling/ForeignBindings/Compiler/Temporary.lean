import ForeignBindings.Compiler.Host

/-! Temporary files.  A file is created under the first fresh name that is free in its directory;
what was created is removed at the end, also if its contents could not be written. -/

namespace ForeignBindings

namespace FileSystem

/-- The files with one more in a directory at an absolute path. -/
def insert (fs : FileSystem) (directory : Path) (name : Text) (bytes : List UInt8) : FileSystem :=
  { fs with tree := fs.tree.alter (Catalog.insert name (.file bytes)) directory.parts }

/-- The files without the one of the given name in a directory at an absolute path. -/
def erase (fs : FileSystem) (directory : Path) (name : Text) : FileSystem :=
  { fs with tree := fs.tree.alter (Catalog.erase name) directory.parts }

end FileSystem

namespace Temporary

/-- What the names of temporary files begin with. -/
def mark : Text := ".bindcheck-".toList

/-- The first of the names that is free in a directory. -/
def freeName? (suffix : Text) (entries : Catalog FileTree) (names : List Text) :
    Option Text :=
  (names.map fun stem => mark ++ stem ++ suffix).find? fun name => !entries.any (·.1 == name)

/-- The name that a new file gets in a directory, or why there is none. -/
def newName (host : Host) (files : FileSystem) (directory : Path) (suffix : Text) :
    Except SystemError Text :=
  let exhausted : SystemError :=
    ⟨.alreadyExists, "No usable temporary file name found".toList, none⟩
  match host.freshNames with
  | [] => .error exhausted
  | first :: _ =>
    let about (refusal : Refusal) : SystemError :=
      .about refusal (directory.child (mark ++ first ++ suffix)).text
    match files.find .look directory with
    | .error refusal => .error (about refusal)
    | .ok (.file _) => .error (about .notDirectory)
    | .ok (.directory entries) =>
      match freeName? suffix entries host.freshNames with
      | none => .error exhausted
      | some name => .ok name

/-- How an attempt to write a temporary file ends, with the files after it: the file has a name and
its contents, or there is an error, and perhaps a file that was created all the same. -/
inductive Attempt
  | written (files : FileSystem) (name : Text)
  | failed (files : FileSystem) (created : Option Text) (error : SystemError)

/-- An attempt to write a temporary file into a directory at an absolute path. -/
def write (host : Host) (files : FileSystem) (directory : Path) (suffix contents : Text) :
    Attempt :=
  match newName host files directory suffix with
  | .error e => .failed files none e
  | .ok name =>
    let path := directory.child name
    match host.storage path with
    | .accepts => .written (files.insert directory name (Utf8.encode contents)) name
    | .refuses refusal => .failed files none (.about refusal path.text)
    | .fills refusal =>
      .failed (files.insert directory name []) (some name) ⟨refusal, refusal.description, none⟩

/-- The files without those that were created. -/
def clean (files : FileSystem) (directory : Path) (created : List Text) : FileSystem :=
  created.foldl (fun fs name => fs.erase directory name) files

end Temporary

end ForeignBindings
