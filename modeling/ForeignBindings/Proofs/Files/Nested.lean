import ForeignBindings.Project.Sources
import ForeignBindings.Proofs.Files.Selection

/-! Nested source directories.  What is below a directory is already listed for the directory
itself, and a file that is met again changes nothing in a selection; so a configuration selects the
same files, and declares the same, whether or not its entries name the directories below theirs too,
as long as there is no obstacle to the walks for these. -/

namespace ForeignBindings

/-! ### Files that are met again -/

theorem Selected.select_eq_self {met : List Path} {selected : List (Path × Path)}
    (h : Selected met selected) {file : Path} (hmet : file ∈ met) :
    ForeignBindings.select selected file = selected := by
  have hany := (h.any_iff file.withoutSuffix).mpr (List.mem_map_of_mem hmet)
  rw [ForeignBindings.select, if_pos hany]
  split
  · rename_i hsignature
    refine (List.map_congr_left fun entry hentry => ?_).trans (List.map_id _)
    dsimp only
    split
    · rename_i hkey
      -- the module of a signature that was met has that signature
      have hsuffix := h.signature entry hentry file hmet hkey.symm hsignature
      have hsame : entry.2 = file := by
        apply Path.eq_of_withoutSuffix ((h.own entry hentry).trans hkey)
          (hsuffix.trans hsignature.symm)
        rw [hsuffix]
        decide
      rw [← hsame]
      rfl
    · rfl
  · rfl

theorem foldl_select_again {met again : List Path} (h : ∀ file ∈ again, file ∈ met)
    (rest : List Path) :
    (met ++ (again ++ rest)).foldl select [] = (met ++ rest).foldl select [] := by
  have hagain : again.foldl select (met.foldl select []) = met.foldl select [] := by
    induction again with
    | nil => rfl
    | cons file again ih =>
      obtain ⟨hfile, hagain⟩ := List.forall_mem_cons.mp h
      rw [List.foldl_cons, (selected_foldl met).select_eq_self hfile, ih hagain]
  rw [List.foldl_append, List.foldl_append, hagain, List.foldl_append]

/-- It makes no difference whether directories are visited once or as often as they are listed. -/
theorem foldl_select_eraseDups (list : Path → List Path) (directories rest : List Path) :
    (directories.eraseDups.flatMap list ++ rest).foldl select [] =
      (directories.flatMap list ++ rest).foldl select [] := by
  induction directories using List.reverseRecOn generalizing rest with
  | nil => rfl
  | append_singleton directories directory ih =>
    rw [eraseDups_concat, List.flatMap_append, List.flatMap_singleton]
    split
    · rename_i hmem
      rw [ih, List.append_assoc, foldl_select_again]
      exact fun file hfile => List.mem_flatMap.mpr ⟨directory, hmem, hfile⟩
    · rw [List.flatMap_append, List.flatMap_singleton, List.append_assoc, ih, List.append_assoc]

/-! ### Walks within walks -/

namespace FileSystem

variable {fs : FileSystem} {search : Search} {levels : Nat} {path directory file : Path}
  {paths : List Path}

theorem among_mono {entries entries' : Text → Except WalkFault (List Path)}
    (hentries : ∀ name visited, entries name = .ok visited → entries' name = .ok visited)
    (h : fs.among search path entries = .ok paths) : fs.among search path entries' = .ok paths := by
  obtain ⟨names, hnames, hpaths⟩ := bind_eq_ok_iff.mp h
  exact bind_eq_ok_iff.mpr ⟨names, hnames, flatMapM_mono hentries hpaths⟩

/-- A walk that does not fail gives the same if it can go down further. -/
theorem walk_mono {more : Nat} (hlevels : levels ≤ more)
    (h : fs.walk search levels path = .ok paths) : fs.walk search more path = .ok paths := by
  induction levels generalizing path paths more with
  | zero =>
    cases more with
    | zero => exact h
    | succ more =>
      refine among_mono (fun _ _ hvisited => ?_) h
      cases hvisited
  | succ levels ih =>
    obtain ⟨more, rfl⟩ := Nat.exists_eq_add_of_le' (Nat.lt_of_lt_of_le levels.succ_pos hlevels)
    refine among_mono (fun name visited hvisited => ?_) h
    obtain ⟨isDirectory, below, hkind, hbelow, rfl⟩ := visit_eq_ok_iff.mp hvisited
    refine visit_eq_ok_iff.mpr ⟨isDirectory, below, hkind, ?_, rfl⟩
    split
    · rename_i hentered
      rw [if_pos hentered] at hbelow
      exact ih (Nat.le_of_succ_le_succ hlevels) hbelow
    · rename_i hnot
      rwa [if_neg hnot] at hbelow

/-- The walk for directories goes on into what it finds. -/
theorem Finds.enters {names : List Text} (h : fs.Finds .directories path names) :
    fs.Enters path names := by
  induction h with
  | here hholds hlooks hkind hlists =>
    obtain ⟨rfl, hname⟩ := Bool.and_eq_true_iff.mp hlists
    exact .down hholds (by simpa using hname) hkind (.start _)
  | inside hholds hshown hdirectory _ ih => exact .down hholds hshown hdirectory ih

/-- The source files of a directory, none if the walk for them is refused. -/
def listed (fs : FileSystem) (path : Path) : List Path := (fs.sources path).toOption.getD []

/-- The directories below a directory, none if the walk for them is refused. -/
def nestedIn (fs : FileSystem) (path : Path) : List Path := (fs.directories path).toOption.getD []

/-- The walk for source files below the path is not refused. -/
def Searchable (fs : FileSystem) (path : Path) : Prop := ∃ files, fs.sources path = .ok files

theorem sources_eq_ok_iff {files : List Path} :
    fs.sources path = .ok files ↔ fs.Searchable path ∧ fs.listed path = files :=
  eq_ok_iff_toOption

theorem modules_eq_ok_iff {directories files : List Path} :
    fs.modules directories = .ok files ↔ (∀ directory ∈ directories, fs.Searchable directory) ∧
      selectModules (directories.flatMap fs.listed) = files :=
  map_flatMapM_eq_ok_iff fun _ _ => sources_eq_ok_iff

/-- A walk for source files that does not fail contains the walks below the nested directories. -/
theorem searchable_of_nestedIn (h : fs.Searchable path)
    (hdirectory : directory ∈ fs.nestedIn path) :
    fs.Searchable directory ∧ ∀ file ∈ fs.listed directory, file ∈ fs.listed path := by
  obtain ⟨files, hfiles⟩ := h
  cases hnested : fs.directories path with
  | error fault =>
    rw [nestedIn, hnested] at hdirectory
    cases hdirectory
  | ok directories =>
    rw [nestedIn, hnested] at hdirectory
    obtain ⟨listed, rfl, hlisted⟩ := listing_walk hnested
    obtain ⟨names, hnames, rfl⟩ := List.mem_map.mp hdirectory
    obtain ⟨rest, below, hlevels, hbelow, hmem⟩ :=
      walk_of_enters ((hlisted.mem_iff names).mp hnames).enters hfiles
    have hsources : fs.sources (path.below names) = .ok below :=
      walk_mono (hlevels ▸ Nat.le_add_left _ _) hbelow
    refine ⟨⟨below, hsources⟩, fun file hfile => ?_⟩
    rw [(sources_eq_ok_iff.mp hsources).2] at hfile
    rw [(sources_eq_ok_iff.mp hfiles).2]
    exact hmem file hfile

end FileSystem

namespace SourceEntry

/-- The path of an entry in a project. -/
def path (root : Path) (entry : SourceEntry) : Path := root.join (.ofText entry.directory)

/-- The directories that an entry leads to. -/
def visited (fs : FileSystem) (root : Path) (entry : SourceEntry) : List Path :=
  entry.path root :: if entry.nested then fs.nestedIn (entry.path root) else []

/-- If an entry asks for nested directories, the walk for them is not refused. -/
def Walkable (fs : FileSystem) (root : Path) (entry : SourceEntry) : Prop :=
  entry.nested = true → ∃ directories, fs.directories (entry.path root) = .ok directories

variable {fs : FileSystem} {root : Path} {entries : List SourceEntry}

theorem directories_eq_ok_iff (entry : SourceEntry) (directories : List Path) :
    entry.directories fs root = .ok directories ↔
      entry.Walkable fs root ∧ entry.visited fs root = directories := by
  rw [SourceEntry.directories, visited, Walkable]
  by_cases hnested : entry.nested = true
  · rw [if_pos hnested, if_pos hnested, map_eq_ok_iff]
    constructor
    · rintro ⟨below, hbelow, rfl⟩
      have hvalue := (eq_ok_iff_toOption.mp hbelow).2
      exact ⟨fun _ => ⟨below, hbelow⟩, by rw [hvalue.symm]; rfl⟩
    · rintro ⟨hwalk, rfl⟩
      exact ⟨_, eq_ok_iff_toOption.mpr ⟨hwalk hnested, rfl⟩, rfl⟩
  · rw [if_neg hnested, if_neg hnested]
    simp [hnested, path]

theorem sourceDirectories_eq_ok_iff {directories : List Path} :
    fs.sourceDirectories root entries = .ok directories ↔
      (∀ entry ∈ entries, entry.Walkable fs root) ∧
        (entries.flatMap (visited fs root)).eraseDups = directories :=
  map_flatMapM_eq_ok_iff directories_eq_ok_iff

theorem searchable_of_visited {entry : SourceEntry} {directory : Path}
    (h : fs.Searchable (entry.path root)) (hdirectory : directory ∈ entry.visited fs root) :
    fs.Searchable directory ∧ ∀ file ∈ fs.listed directory, file ∈ fs.listed (entry.path root) := by
  rcases List.mem_cons.mp hdirectory with rfl | hnested
  · exact ⟨h, fun _ => id⟩
  · split at hnested
    · exact FileSystem.searchable_of_nestedIn h hnested
    · cases hnested

theorem searchable_visited_iff :
    (∀ directory ∈ entries.flatMap (visited fs root), fs.Searchable directory) ↔
      ∀ directory ∈ entries.map (path root), fs.Searchable directory := by
  rw [List.forall_mem_flatMap, List.forall_mem_map]
  refine forall₂_congr fun entry _ => ⟨fun h => h _ List.mem_cons_self, fun h directory => ?_⟩
  exact fun hdirectory => (searchable_of_visited h hdirectory).1

/-- The directories below those of entries add nothing to what is selected. -/
theorem foldl_select_entries (h : ∀ directory ∈ entries.map (path root), fs.Searchable directory)
    (met : List Path) :
    (met ++ (entries.flatMap (visited fs root)).flatMap fs.listed).foldl select [] =
      (met ++ (entries.map (path root)).flatMap fs.listed).foldl select [] := by
  induction entries generalizing met with
  | nil => rfl
  | cons entry entries ih =>
    obtain ⟨hentry, hentries⟩ := List.forall_mem_cons.mp h
    rw [List.flatMap_cons, List.flatMap_append, visited, List.flatMap_cons, List.append_assoc,
      ← List.append_assoc, foldl_select_again, List.map_cons, List.flatMap_cons, ih hentries,
      List.append_assoc]
    intro file hfile
    obtain ⟨directory, hdirectory, hlisted⟩ := List.mem_flatMap.mp hfile
    exact List.mem_append_right _
      ((searchable_of_visited hentry (List.mem_cons_of_mem _ hdirectory)).2 file hlisted)

/-- Entries select what their own directories list, if no walk that they ask for is refused. -/
theorem exists_modules_iff {files : List Path} :
    (∃ directories, fs.sourceDirectories root entries = .ok directories ∧
        fs.modules directories = .ok files) ↔
      (∀ entry ∈ entries, entry.Walkable fs root) ∧
        (∀ directory ∈ entries.map (path root), fs.Searchable directory) ∧
        selectModules ((entries.map (path root)).flatMap fs.listed) = files := by
  have hselected (h : ∀ directory ∈ entries.map (path root), fs.Searchable directory) :
      selectModules ((entries.flatMap (visited fs root)).eraseDups.flatMap fs.listed) =
        selectModules ((entries.map (path root)).flatMap fs.listed) := by
    have honce := foldl_select_eraseDups fs.listed (entries.flatMap (visited fs root)) []
    rw [List.append_nil, List.append_nil] at honce
    rw [selectModules, selectModules, honce, ← List.nil_append (List.flatMap _ _),
      foldl_select_entries h]
    rfl
  simp only [sourceDirectories_eq_ok_iff, FileSystem.modules_eq_ok_iff]
  constructor
  · rintro ⟨_, ⟨hwalkable, rfl⟩, hsearchable, rfl⟩
    simp only [List.mem_eraseDups, searchable_visited_iff] at hsearchable
    exact ⟨hwalkable, hsearchable, (hselected hsearchable).symm⟩
  · rintro ⟨hwalkable, hsearchable, rfl⟩
    refine ⟨_, ⟨hwalkable, rfl⟩, ?_, hselected hsearchable⟩
    simpa only [List.mem_eraseDups, searchable_visited_iff] using hsearchable

theorem directories_eq_error {entry : SourceEntry} {fault : WalkFault}
    (h : entry.directories fs root = .error fault) :
    fs.directories (entry.path root) = .error fault := by
  rw [SourceEntry.directories] at h
  split at h
  · exact map_error_iff.mp h
  · cases h

/-! ### Configurations with and without nested directories -/

/-- The item of a configuration as it is, or an item with a directory as it is without nested
ones. -/
inductive Unnests : Json → Json → Prop
  | same (item : Json) : Unnests item item
  | plain {item plain : Json} {directory : Text}
    (hitem : item.member? "dir".toList = some (.string directory))
    (hplain : plain.member? "dir".toList = some (.string directory))
    (hnone : plain.member? "subdirs".toList = none) : Unnests item plain

theorem ofJson?_of_dir {item : Json} {directory : Text}
    (h : item.member? "dir".toList = some (.string directory)) :
    ofJson? item = some ⟨directory, (item.member? "subdirs".toList).any asksForNested⟩ := by
  cases item with
  | string value => cases h
  | _ => rw [ofJson?, h] <;> first | rfl | exact fun _ heq => nomatch heq

/-- The second entry is the first one, or one for the same directory without nested ones. -/
def Plainer (entry plain : SourceEntry) : Prop :=
  plain.directory = entry.directory ∧ (plain.nested = true → plain = entry)

theorem plainer_of_unnests {items plainItems : List Json}
    (h : List.Forall₂ Unnests items plainItems) :
    List.Forall₂ Plainer (items.filterMap ofJson?) (plainItems.filterMap ofJson?) := by
  induction h with
  | nil => exact .nil
  | @cons item _ _ _ hitem _ ih =>
    cases hitem with
    | same =>
      cases hentry : ofJson? item with
      | none => rwa [List.filterMap_cons_none hentry, List.filterMap_cons_none hentry]
      | some entry =>
        rw [List.filterMap_cons_some hentry, List.filterMap_cons_some hentry]
        exact .cons ⟨rfl, fun _ => rfl⟩ ih
    | plain hitem hplain hnone =>
      rw [List.filterMap_cons_some (ofJson?_of_dir hitem),
        List.filterMap_cons_some (ofJson?_of_dir hplain), hnone]
      exact .cons ⟨rfl, fun h => nomatch h⟩ ih

variable {plains : List SourceEntry}

theorem map_path_of_plainer (h : List.Forall₂ Plainer entries plains) :
    entries.map (path root) = plains.map (path root) := by
  rw [← List.forall₂_eq_eq_eq, List.forall₂_map_left_iff, List.forall₂_map_right_iff]
  exact h.imp fun entry plain hplain => by rw [path, path, hplain.1]

theorem walkable_of_plainer (h : List.Forall₂ Plainer entries plains)
    (hwalkable : ∀ entry ∈ entries, entry.Walkable fs root) :
    ∀ plain ∈ plains, plain.Walkable fs root := by
  induction h with
  | nil => exact hwalkable
  | cons hplain _ ih =>
    obtain ⟨hentry, hentries⟩ := List.forall_mem_cons.mp hwalkable
    refine List.forall_mem_cons.mpr ⟨fun hnested => ?_, ih hentries⟩
    obtain rfl := hplain.2 hnested
    exact hentry hnested

end SourceEntry

namespace FileSystem

open SourceEntry

/-- The source files that a configuration selects in a project. -/
def selectedBy (fs : FileSystem) (root : Path) (contents : Json) :
    Except WalkFault (List Path) := do
  let directories ← fs.sourceDirectories root (SourceEntry.ofConfiguration contents)
  fs.modules directories

/-- The declarations in the source files that a configuration selects in a project. -/
def declaredBy (fs : FileSystem) (root : Path) (contents : Json) :
    Except Fault (List Declaration) := do
  let directories ← (fs.sourceDirectories root
    (SourceEntry.ofConfiguration contents)).mapError .ofWalk
  fs.allDeclarations directories

variable {fs : FileSystem} {root : Path}

theorem declaredBy_eq_ok_iff {contents : Json} {found : List Declaration} :
    fs.declaredBy root contents = .ok found ↔ ∃ files, fs.selectedBy root contents = .ok files ∧
      (files.flatMapM fs.declarations).mapError Fault.ofRead = .ok found := by
  simp only [declaredBy, allDeclarations, selectedBy, bind_eq_ok_iff, mapError_eq_ok_iff]
  constructor
  · rintro ⟨directories, hlisted, files, hmodules, hfound⟩
    exact ⟨files, ⟨directories, hlisted, hmodules⟩, hfound⟩
  · rintro ⟨files, ⟨directories, hlisted, hmodules⟩, hfound⟩
    exact ⟨directories, hlisted, files, hmodules, hfound⟩

theorem ofConfiguration_of_sources {contents : Json} {items : List Json}
    (h : contents.member? "sources".toList = some (.array items)) :
    SourceEntry.ofConfiguration contents = items.filterMap ofJson? := by
  rw [SourceEntry.ofConfiguration, h]

/-- A configuration selects the same files and the same declarations in the same order without the
nested directories of its items, if the walks for these are not refused, that is, if there is no
obstacle to them; otherwise nothing is selected. -/
theorem selection_of_unnested (fs : FileSystem) {contents plain : Json}
    {items plainItems : List Json}
    (hcontents : contents.member? "sources".toList = some (.array items))
    (hplain : plain.member? "sources".toList = some (.array plainItems))
    (hitems : List.Forall₂ Unnests items plainItems) (root : Path) :
    (∀ files, fs.selectedBy root contents = .ok files ↔ fs.selectedBy root plain = .ok files ∧
      ∀ entry ∈ SourceEntry.ofConfiguration contents, entry.Walkable fs root) ∧
    (∀ found, fs.declaredBy root contents = .ok found ↔ fs.declaredBy root plain = .ok found ∧
      ∀ entry ∈ SourceEntry.ofConfiguration contents, entry.Walkable fs root) ∧
    ∀ path, (∃ fault, fs.directories path = .error fault) ↔
      ∃ fault, fs.Obstacle .directories (fs.limit.levels .directories) path fault := by
  have hplainer := plainer_of_unnests hitems
  rw [← ofConfiguration_of_sources hcontents, ← ofConfiguration_of_sources hplain] at hplainer
  have hselected : ∀ files, fs.selectedBy root contents = .ok files ↔
      fs.selectedBy root plain = .ok files ∧
        ∀ entry ∈ SourceEntry.ofConfiguration contents, entry.Walkable fs root := by
    intro files
    simp only [selectedBy, bind_eq_ok_iff, exists_modules_iff, map_path_of_plainer hplainer]
    constructor
    · rintro ⟨hall, hsearchable, hfiles⟩
      exact ⟨⟨walkable_of_plainer hplainer hall, hsearchable, hfiles⟩, hall⟩
    · rintro ⟨⟨-, hsearchable, hfiles⟩, hall⟩
      exact ⟨hall, hsearchable, hfiles⟩
  refine ⟨hselected, fun found => ?_, fun path => walk_fails_iff⟩
  simp only [declaredBy_eq_ok_iff, hselected, exists_and_right, and_right_comm]

/-! ### Overlapping directories, and an entry that cannot be looked at -/

/-- A directory with a source file, and one below it with another. -/
def overlapping : FileSystem :=
  .ofTree (.put (.file []) ["a".toList, "b".toList, "y.res".toList]
    (.put (.file []) ["a".toList, "x.res".toList] .empty)) ⟨.root, []⟩

/-- A configuration with the given items. -/
def withItems (items : List Json) : Json := .object [("sources".toList, .array items)]

theorem sources_withItems (items : List Json) :
    (withItems items).member? "sources".toList = some (.array items) :=
  rfl

/-- The item of a directory. -/
def plainItem (directory : Text) : Json := .object [("dir".toList, .string directory)]

/-- The item of a directory and those below it. -/
def nestedItem (directory : Text) : Json :=
  .object [("dir".toList, .string directory), ("subdirs".toList, .bool true)]

theorem unnests_nestedItem (directory : Text) :
    Unnests (nestedItem directory) (plainItem directory) :=
  .plain rfl rfl rfl

/-- The directory inside is selected from on its own before the other one and those below it. -/
theorem selectedBy_overlapping :
    overlapping.selectedBy ⟨.root, []⟩ (withItems [.string "a/b".toList, nestedItem ['a']]) =
      .ok [⟨.root, ["a".toList, "b".toList, "y.res".toList]⟩,
        ⟨.root, ["a".toList, "x.res".toList]⟩] := by
  have hitems := List.Forall₂.cons (Unnests.same (.string "a/b".toList))
    (.cons (unnests_nestedItem ['a']) .nil)
  obtain ⟨hselected, -, -⟩ := selection_of_unnested overlapping (sources_withItems _)
    (sources_withItems _) hitems ⟨.root, []⟩
  have hentries : SourceEntry.ofConfiguration
      (withItems [.string "a/b".toList, nestedItem ['a']]) =
        [⟨"a/b".toList, false⟩, ⟨['a'], true⟩] := by decide +kernel
  refine (hselected _).mpr ⟨by decide +kernel, ?_⟩
  rw [hentries, List.forall_mem_cons, List.forall_mem_singleton]
  exact ⟨fun h => (nomatch h), fun _ => ⟨[⟨.root, ["a".toList, "b".toList]⟩], by decide +kernel⟩⟩

/-- The walk for nested directories is refused where it comes by the hidden file, which the walk for
source files passes over. -/
theorem selectedBy_crammed :
    (crammed.selectedBy ⟨.root, []⟩ (withItems [plainItem roundabout])).toOption =
        some [(Path.ofText ('/' :: roundabout)).child "F.res".toList] ∧
      (crammed.selectedBy ⟨.root, []⟩ (withItems [nestedItem roundabout])).toOption = none := by
  constructor
  · decide +kernel
  · decide +kernel

end FileSystem

end ForeignBindings
