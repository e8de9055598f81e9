import ForeignBindings.Declaration.Scan
import ForeignBindings.Failure
import ForeignBindings.Files.Walk

/-! The declarations in the source files of a project. -/

namespace ForeignBindings.FileSystem

/-- The declarations of a source file. -/
def declarations (fs : FileSystem) (file : Path) : Except ReadFault (List Declaration) :=
  (fs.read file).map (scan file.text)

/-- The declarations below directories, file by file, each module once. -/
def allDeclarations (fs : FileSystem) (directories : List Path) :
    Except Fault (List Declaration) := do
  let files ← (fs.modules directories).mapError .ofWalk
  (files.flatMapM fs.declarations).mapError .ofRead

end ForeignBindings.FileSystem
