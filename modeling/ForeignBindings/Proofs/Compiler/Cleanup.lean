import ForeignBindings.Compiler.Run
import ForeignBindings.Proofs.Files.Refusal
import ForeignBindings.Proofs.Files.Tree

/-! What a consultation of the compiler does to files.  Whatever is created gets a name that is free
at the time, so erasing it leaves the files as they were before; the compiler is started on these
and two more files.  That a compiler writes nothing itself is in what a host is. -/

namespace ForeignBindings

/-! ### Directories -/

namespace Path

/-- A path that starts at a root and has no double dots. -/
structure IsNormal (path : Path) : Prop where
  anchor : path.anchor ≠ .here
  parts : ∀ name ∈ path.parts, name ≠ parentName

theorem not_mem_normalParts (parts : List Text) : parentName ∉ normalParts parts := by
  have hfold : ∀ done : List Text, parentName ∉ done → parentName ∉ parts.foldl
      (fun done name => if name = parentName then done.dropLast else done ++ [name]) done := by
    induction parts with
    | nil => exact fun _ h => h
    | cons name parts ih =>
      intro done h
      apply ih
      dsimp only
      split
      · exact fun hmem => h (List.dropLast_subset done hmem)
      · rename_i hname
        simp [h, Ne.symm hname]
  exact hfold [] List.not_mem_nil

theorem isNormal_absolute {directory : Path} (h : directory.anchor ≠ .here) (path : Path) :
    (absolute directory path).IsNormal where
  anchor := by
    rw [absolute, join]
    split
    · exact h
    · assumption
  parts := by
    rintro name hname rfl
    exact not_mem_normalParts _ hname

end Path

namespace FileSystem

/-- Directories keep their entries in order, and the working directory is an absolute path. -/
structure WellFormed (fs : FileSystem) : Prop where
  ordered : fs.tree.Ordered
  absolute : fs.directory.anchor ≠ .here

/-- The name is free in a directory at an absolute path. -/
def Free (fs : FileSystem) (directory : Path) (name : Text) : Prop :=
  ∃ es : Catalog FileTree,
    fs.tree.reach? directory.parts = some (.directory es) ∧ name ∉ es.names

variable {fs : FileSystem} {directory : Path} {name : Text} {bytes : List UInt8}

theorem free_of_find {es : Catalog FileTree} (hdirectory : directory.IsNormal)
    (h : fs.find .look directory = .ok (.directory es)) (hname : name ∉ es.names) :
    fs.Free directory name := by
  have hfollow := follow_of_find h
  rw [Path.join, if_neg hdirectory.anchor] at hfollow
  exact ⟨es, FileTree.reach?_of_follow hdirectory.parts hfollow, hname⟩

theorem Free.node?_eq_none (h : fs.Free directory name) :
    fs.tree.node? (directory.parts ++ [name]) = none := by
  obtain ⟨es, hreach, hname⟩ := h
  rw [FileTree.node?, FileTree.reach?_append, hreach, Option.bind_some, FileTree.reach?_singleton,
    Catalog.lookup_eq_none_iff.mpr hname, Option.map_none]

theorem Free.node?_insert (h : fs.Free directory name) (bytes : List UInt8) (names : List Text) :
    (fs.insert directory name bytes).tree.node? names =
      if names = directory.parts ++ [name] then some (.file bytes) else fs.tree.node? names := by
  obtain ⟨es, hreach, hname⟩ := h
  exact FileTree.node?_alter_insert hreach hname bytes names

/-- A second file does not take the name of the first one, which is no longer free. -/
theorem Free.node?_insert_insert {other : Text} (h : fs.Free directory name)
    (hother : (fs.insert directory name bytes).Free directory other) (bytes' : List UInt8) :
    name ≠ other ∧ fs.tree.node? (directory.parts ++ [other]) = none ∧
      ∀ names, ((fs.insert directory name bytes).insert directory other bytes').tree.node? names =
        if names = directory.parts ++ [name] then some (.file bytes)
        else if names = directory.parts ++ [other] then some (.file bytes')
        else fs.tree.node? names := by
  have hnone := hother.node?_eq_none
  rw [h.node?_insert] at hnone
  split at hnone
  · cases hnone
  · rename_i hne
    refine ⟨?_, hnone, fun names => ?_⟩
    · rintro rfl
      exact hne rfl
    · rw [hother.node?_insert, h.node?_insert]
      by_cases hname : names = directory.parts ++ [name]
      · rw [if_pos hname, if_pos hname, if_neg]
        rw [hname]
        exact Ne.symm hne
      · rw [if_neg hname, if_neg hname]

theorem ordered_insert (h : fs.tree.Ordered) (directory : Path) (name : Text)
    (bytes : List UInt8) : (fs.insert directory name bytes).tree.Ordered :=
  h.alter (fun _ hes => hes.insert .file name) directory.parts

/-- A file under a free name leaves nothing behind once it is erased. -/
theorem Free.erase_insert (h : fs.Free directory name) (hordered : fs.tree.Ordered) :
    (fs.insert directory name bytes).erase directory name = fs := by
  obtain ⟨es, hreach, hname⟩ := h
  rw [FileSystem.erase, FileSystem.insert, FileTree.alter_alter,
    FileTree.alter_eq_self hordered hreach (Catalog.erase_insert hname)]

theorem erase_comm (fs : FileSystem) (directory : Path) (name other : Text) :
    (fs.erase directory name).erase directory other =
      (fs.erase directory other).erase directory name := by
  simp only [erase, FileTree.alter_alter]
  have hcomm : Catalog.erase other ∘ Catalog.erase name =
      (Catalog.erase name ∘ Catalog.erase other : Catalog FileTree → Catalog FileTree) :=
    funext fun es => Catalog.erase_comm es name other
  rw [hcomm]

end FileSystem

/-! ### Temporary files -/

namespace Temporary

/-- The files after more of them were created in a directory, each under a name that was free. -/
inductive Created (directory : Path) (files : FileSystem) : List Text → FileSystem → Prop
  | nil : Created directory files [] files
  | concat {names : List Text} {now : FileSystem} {name : Text}
    (h : Created directory files names now) (hfree : now.Free directory name) (bytes : List UInt8) :
    Created directory files (names ++ [name]) (now.insert directory name bytes)

variable {host : Host} {files now later : FileSystem} {directory : Path} {names : List Text}
  {name suffix contents : Text} {e : SystemError}

theorem clean_erase (files : FileSystem) (directory : Path) (name : Text) (names : List Text) :
    clean (files.erase directory name) directory names =
      (clean files directory names).erase directory name := by
  induction names generalizing files with
  | nil => rfl
  | cons other names ih =>
    rw [clean, List.foldl_cons, FileSystem.erase_comm]
    exact ih (files.erase directory other)

theorem Created.ordered (h : Created directory files names now) (hordered : files.tree.Ordered) :
    now.tree.Ordered := by
  induction h with
  | nil => exact hordered
  | concat _ _ _ ih => exact FileSystem.ordered_insert ih directory _ _

/-- Cleaning up takes away what was created, and nothing else. -/
theorem Created.clean_eq (h : Created directory files names now)
    (hordered : files.tree.Ordered) : clean now directory names = files := by
  induction h with
  | nil => rfl
  | @concat names now name h hfree bytes ih =>
    -- the last file is erased last, but might as well be erased first
    calc clean (now.insert directory name bytes) directory (names ++ [name])
        = (clean (now.insert directory name bytes) directory names).erase directory name := by
          rw [clean, List.foldl_append]
          rfl
      _ = clean ((now.insert directory name bytes).erase directory name) directory names :=
          (clean_erase _ directory name names).symm
      _ = clean now directory names := by rw [hfree.erase_insert (h.ordered hordered)]
      _ = files := ih

theorem free_of_newName (hdirectory : directory.IsNormal)
    (h : newName host now directory suffix = .ok name) : now.Free directory name := by
  rw [newName] at h
  split at h
  · cases h
  · dsimp only at h
    split at h
    · cases h
    · cases h
    · rename_i es hfind
      split at h
      · cases h
      · rename_i hfree
        obtain rfl := Except.ok.inj h
        refine FileSystem.free_of_find hdirectory hfind fun hmem => ?_
        obtain ⟨entry, hentry, rfl⟩ := List.mem_map.mp hmem
        have hnone := List.find?_some hfree
        simp only [Bool.not_eq_true', List.any_eq_false] at hnone
        exact hnone entry hentry (beq_iff_eq.mpr rfl)

/-- An attempt that succeeds creates one file, with its contents. -/
theorem Created.of_written (h : Created directory files names now)
    (hdirectory : directory.IsNormal)
    (hwrite : write host now directory suffix contents = .written later name) :
    now.Free directory name ∧ later = now.insert directory name (Utf8.encode contents) ∧
      Created directory files (names ++ [name]) later := by
  rw [write] at hwrite
  split at hwrite
  · cases hwrite
  · rename_i hname
    dsimp only at hwrite
    split at hwrite
    · obtain ⟨rfl, rfl⟩ := Attempt.written.inj hwrite
      have hfree := free_of_newName hdirectory hname
      exact ⟨hfree, rfl, h.concat hfree _⟩
    · cases hwrite
    · cases hwrite

/-- An attempt that fails tells what it created all the same. -/
theorem Created.of_failed (h : Created directory files names now)
    (hdirectory : directory.IsNormal) {created : Option Text}
    (hwrite : write host now directory suffix contents = .failed later created e) :
    Created directory files (names ++ created.toList) later := by
  rw [write] at hwrite
  split at hwrite
  · obtain ⟨rfl, rfl, -⟩ := Attempt.failed.inj hwrite
    rwa [Option.toList_none, List.append_nil]
  · rename_i hname
    dsimp only at hwrite
    split at hwrite
    · cases hwrite
    · obtain ⟨rfl, rfl, -⟩ := Attempt.failed.inj hwrite
      rwa [Option.toList_none, List.append_nil]
    · obtain ⟨rfl, rfl, -⟩ := Attempt.failed.inj hwrite
      exact h.concat (free_of_newName hdirectory hname) _

end Temporary

namespace Compiler

open Temporary

/-! ### Consultations -/

/-- The files that a compiler is started on: those of before, and two new ones in the root of the
project, a program and a configuration that names it.  The compiler is told of the configuration. -/
structure Prepared (host : Host) (root : Path) (program : Program) (name configurationName : Text)
    (invocation : Invocation) : Prop where
  program_eq : invocation.program = (Path.absolute host.files.directory root).child name
  configuration_eq :
    invocation.configuration = (Path.absolute host.files.directory root).child configurationName
  told : ∃ words, invocation.words = fullCommand words invocation.configuration
  ne : name ≠ configurationName
  new : host.files.tree.node? invocation.program.parts = none ∧
    host.files.tree.node? invocation.configuration.parts = none
  directory_eq : invocation.files.directory = host.files.directory
  files : ∃ json : Json, json.member? "files".toList = some (Json.texts [name]) ∧
    ∀ names, invocation.files.tree.node? names =
      if names = invocation.program.parts then some (.file (Utf8.encode program.text))
      else if names = invocation.configuration.parts then some (.file (Utf8.encode json.pretty))
      else host.files.tree.node? names

variable {host : Host} {setup : Setup} {root : Path} {base : Option Path} {timeout : Timeout}
  {program : Program} {words : List Text} {requests : List Request}

theorem member?_configuration (name : Text) (base : Option Path) :
    (configuration name base).member? "files".toList = some (Json.texts [name]) := by
  cases base <;> rfl

theorem run_files (h : host.files.WellFormed) :
    (run host root base timeout program words).files = host.files ∧
      ∀ invocation ∈ (run host root base timeout program words).consultation.invocations,
        ∃ name configurationName,
          Prepared host root program name configurationName invocation := by
  have hdirectory := Path.isNormal_absolute h.absolute root
  rw [run]
  dsimp only
  split
  · rename_i hfirst
    have hcreated := Created.nil.of_failed hdirectory hfirst
    exact ⟨hcreated.clean_eq h.ordered, by simp [stopped]⟩
  · rename_i withProgram name hfirst
    obtain ⟨hfree, hprogram, hcreated⟩ := Created.nil.of_written hdirectory hfirst
    rw [writeConfiguration]
    cases baseConfiguration? host.files root base with
    | error e => exact ⟨hcreated.clean_eq h.ordered, by simp [stopped]⟩
    | ok extended =>
      dsimp only
      split
      · rename_i hsecond
        exact ⟨(hcreated.of_failed hdirectory hsecond).clean_eq h.ordered, by simp [stopped]⟩
      · rename_i withBoth configurationName hsecond
        subst hprogram
        obtain ⟨hother, rfl, hboth⟩ := hcreated.of_written hdirectory hsecond
        refine ⟨hboth.clean_eq h.ordered, fun invocation hinvocation => ?_⟩
        obtain rfl := List.mem_singleton.mp hinvocation
        obtain ⟨hne, hnone, hnode⟩ := hfree.node?_insert_insert hother
          (Utf8.encode (configuration name extended).pretty)
        exact ⟨name, configurationName, rfl, rfl, ⟨words, rfl⟩, hne, ⟨hfree.node?_eq_none, hnone⟩,
          rfl, configuration name extended, member?_configuration name extended, hnode⟩

/-- A consultation leaves all files as they were, however it ends; and a compiler that it starts
finds these and two new files, the program and a configuration that names it. -/
theorem consult_files (setup : Setup) (root : Path) (requests : List Request)
    (h : host.files.WellFormed) :
    (consult host setup root requests).files = host.files ∧
      ∀ invocation ∈ (consult host setup root requests).consultation.invocations,
        ∃ name configurationName,
          Prepared host root (.ofRequests requests) name configurationName invocation := by
  rw [consult]
  split
  · exact ⟨rfl, by simp⟩
  · split
    · exact ⟨rfl, by simp [stopped]⟩
    · split
      · exact ⟨rfl, by simp [stopped]⟩
      · exact run_files h

/-- A directory in which the first fresh name is taken by a configuration, and a compiler that does
not come to an end. -/
def crowdedHost : Host :=
  ⟨.ofTree (FileTree.put (.file [1]) ["p".toList, ".bindcheck-x.json".toList] .empty)
    ⟨.root, ["p".toList]⟩, [], none, fun _ => .timedOut, [['x'], ['y']], fun _ => .accepts⟩

theorem consult_files_crowded :
    let requests := [Declaration.request ⟨['f'], ['f'], "int".toList, .empty, [], 1, 1⟩]
    let session := consult crowdedHost ⟨some "tsc".toList, none, .whole 120⟩ ⟨.here, []⟩ requests
    crowdedHost.files.WellFormed ∧ session.files = crowdedHost.files ∧
      ∃ invocation, session.consultation.invocations = [invocation] ∧
        ∃ name configurationName, Prepared crowdedHost ⟨.here, []⟩ (.ofRequests requests) name
          configurationName invocation := by
  intro requests session
  have h : crowdedHost.files.WellFormed := ⟨FileTree.ordered_empty.put .file _, by decide⟩
  obtain ⟨hfiles, hprepared⟩ :=
    consult_files ⟨some "tsc".toList, none, .whole 120⟩ ⟨.here, []⟩ requests h
  obtain ⟨invocation, hstarted⟩ : ∃ invocation,
    session.consultation.invocations = [invocation] := ⟨_, rfl⟩
  refine ⟨h, hfiles, invocation, hstarted, hprepared invocation ?_⟩
  rw [hstarted]
  exact List.mem_cons_self

end Compiler

end ForeignBindings
