import ForeignBindings.Proofs.Files.Walk
import Mathlib.Data.List.Induction

/-! The selection of one file for each module.  Whatever directories the files are met in, and in
whatever order, the signature of a module takes the place of its implementation, and the modules
keep the order in which they were first met. -/

namespace ForeignBindings

/-! ### Modules -/

namespace Path

/-- A file is known by its module and its suffix. -/
theorem eq_of_withoutSuffix {path other : Path} (hmodule : path.withoutSuffix = other.withoutSuffix)
    (hsuffix : path.suffix = other.suffix) (hsome : path.suffix ≠ []) : path = other := by
  have hsplit : ∀ p : Path, p.suffix ≠ [] → ∃ front stem,
      p.parts = front ++ [stem ++ p.suffix] ∧ p.withoutSuffix = ⟨p.anchor, front ++ [stem]⟩ := by
    rintro ⟨anchor, parts⟩ hne
    rcases List.eq_nil_or_concat parts with rfl | ⟨front, last, rfl⟩
    · exact absurd rfl hne
    · refine ⟨front, (cutSuffix last).1, ?_, ?_⟩
      · simp [suffix, name, cutSuffix_append]
      · simp [withoutSuffix]
  obtain ⟨front, stem, hparts, hwithout⟩ := hsplit path hsome
  obtain ⟨front', stem', hparts', hwithout'⟩ := hsplit other (hsuffix ▸ hsome)
  rw [hwithout, hwithout', Path.mk.injEq] at hmodule
  obtain ⟨hanchor, hstems⟩ := hmodule
  obtain ⟨hfront, hstem⟩ := List.append_inj' hstems rfl
  have hsame : path.parts = other.parts := by
    rw [hparts, hparts', hfront, List.singleton_inj.mp hstem, hsuffix]
  exact (Path.mk.injEq ..).mpr ⟨hanchor, hsame⟩

end Path

/-- One file for each module among the files that were found, in the order in which the modules are
met: its signature, if one was found, else its implementation. -/
structure Selection (found files : List Path) : Prop where
  modules : files.map Path.withoutSuffix = (found.map Path.withoutSuffix).eraseDups
  mem : ∀ file ∈ files, file ∈ found
  signature : ∀ file ∈ files, ∀ other ∈ found, other.withoutSuffix = file.withoutSuffix →
    other.suffix = signatureSuffix → file = other
  implementation : ∀ file ∈ files, (∀ other ∈ found, other.withoutSuffix = file.withoutSuffix →
    other.suffix ≠ signatureSuffix) → file.suffix = implementationSuffix

/-! ### One more file -/

/-- What is kept of the files that were met: each module with a file of its own, which is a
signature as soon as one was met. -/
structure Selected (met : List Path) (selected : List (Path × Path)) : Prop where
  modules : selected.map Prod.fst = (met.map Path.withoutSuffix).eraseDups
  mem : ∀ entry ∈ selected, entry.2 ∈ met
  own : ∀ entry ∈ selected, entry.2.withoutSuffix = entry.1
  signature : ∀ entry ∈ selected, ∀ file ∈ met, file.withoutSuffix = entry.1 →
    file.suffix = signatureSuffix → entry.2.suffix = signatureSuffix

theorem eraseDups_concat (paths : List Path) (path : Path) :
    (paths ++ [path]).eraseDups =
      if path ∈ paths then paths.eraseDups else paths.eraseDups ++ [path] := by
  rw [List.eraseDups_append, List.removeAll]
  by_cases h : path ∈ paths
  · simp [h]
  · simp [h, List.eraseDups_cons]

theorem Selected.any_iff {met : List Path} {selected : List (Path × Path)}
    (h : Selected met selected) (key : Path) :
    (selected.any fun (other, _) => other == key) = true ↔ key ∈ met.map Path.withoutSuffix := by
  rw [← List.mem_eraseDups, ← h.modules]
  simp

/-- A file of a module that was not met yet becomes the file of it. -/
theorem Selected.concat {met : List Path} {selected : List (Path × Path)}
    (h : Selected met selected) {file : Path}
    (hnew : file.withoutSuffix ∉ met.map Path.withoutSuffix) :
    Selected (met ++ [file]) (selected ++ [(file.withoutSuffix, file)]) where
  modules := by
    rw [List.map_append, List.map_append, h.modules, List.map_singleton, List.map_singleton,
      eraseDups_concat, if_neg hnew]
  mem := by
    simp only [List.forall_mem_append, List.forall_mem_singleton]
    exact ⟨fun entry hentry => List.mem_append_left _ (h.mem entry hentry), by simp⟩
  own := by
    simp only [List.forall_mem_append, List.forall_mem_singleton]
    exact ⟨h.own, trivial⟩
  signature := by
    have hother : ∀ entry ∈ selected, file.withoutSuffix ≠ entry.1 := by
      intro entry hentry heq
      apply hnew
      rw [heq, ← List.mem_eraseDups, ← h.modules]
      exact List.mem_map_of_mem hentry
    simp only [List.forall_mem_append, List.forall_mem_singleton]
    refine ⟨fun entry hentry => ⟨h.signature entry hentry, ?_⟩, ?_, fun _ hsuffix => hsuffix⟩
    · intro heq
      exact absurd heq (hother entry hentry)
    · intro other hmem heq
      exact absurd (heq ▸ List.mem_map_of_mem hmem) hnew

/-- A signature takes the place of the file of its module. -/
theorem Selected.replace {met : List Path} {selected : List (Path × Path)}
    (h : Selected met selected) {file : Path}
    (hmet : file.withoutSuffix ∈ met.map Path.withoutSuffix)
    (hsignature : file.suffix = signatureSuffix) :
    Selected (met ++ [file]) (selected.map fun (other, old) =>
      (other, if other = file.withoutSuffix then file else old)) where
  modules := by
    rw [List.map_append, List.map_singleton, eraseDups_concat, if_pos hmet, ← h.modules,
      List.map_map]
    rfl
  mem := by
    rw [List.forall_mem_map]
    intro entry hentry
    dsimp only
    split
    · simp
    · exact List.mem_append_left _ (h.mem entry hentry)
  own := by
    rw [List.forall_mem_map]
    intro entry hentry
    dsimp only
    split
    · rename_i heq
      exact heq.symm
    · exact h.own entry hentry
  signature := by
    rw [List.forall_mem_map]
    intro entry hentry
    dsimp only
    split
    · exact fun _ _ _ _ => hsignature
    · rename_i hne
      simp only [List.forall_mem_append, List.forall_mem_singleton]
      exact ⟨h.signature entry hentry, fun heq => absurd heq.symm hne⟩

/-- Any other file of a module that was met changes nothing. -/
theorem Selected.skip {met : List Path} {selected : List (Path × Path)}
    (h : Selected met selected) {file : Path}
    (hmet : file.withoutSuffix ∈ met.map Path.withoutSuffix)
    (hother : file.suffix ≠ signatureSuffix) : Selected (met ++ [file]) selected where
  modules := by
    rw [List.map_append, List.map_singleton, eraseDups_concat, if_pos hmet, h.modules]
  mem := fun entry hentry => List.mem_append_left _ (h.mem entry hentry)
  own := h.own
  signature := by
    intro entry hentry
    simp only [List.forall_mem_append, List.forall_mem_singleton]
    exact ⟨h.signature entry hentry, fun _ hsuffix => absurd hsuffix hother⟩

theorem Selected.select {met : List Path} {selected : List (Path × Path)}
    (h : Selected met selected) (file : Path) :
    Selected (met ++ [file]) (select selected file) := by
  -- a module was met exactly if it has an entry, so the program's test is about the files met
  have hany := h.any_iff file.withoutSuffix
  unfold ForeignBindings.select
  dsimp only
  split
  · rename_i hsome
    split
    · rename_i hsignature
      exact h.replace (hany.mp hsome) hsignature
    · rename_i hother
      exact h.skip (hany.mp hsome) hother
  · rename_i hnone
    exact h.concat fun hmem => hnone (hany.mpr hmem)

theorem selected_foldl (files : List Path) : Selected files (files.foldl select []) := by
  induction files using List.reverseRecOn with
  | nil => exact ⟨rfl, by simp, by simp, by simp⟩
  | append_singleton files file ih =>
    rw [List.foldl_append]
    exact ih.select file

/-! ### Source files -/

theorem suffix_of_isSourceName {file : Path} (h : isSourceName file.name = true) :
    file.suffix = implementationSuffix ∨ file.suffix = signatureSuffix := by
  simpa [isSourceName, Path.suffix] using h

theorem selection_selectModules {found : List Path}
    (hsources : ∀ file ∈ found, isSourceName file.name = true) :
    Selection found (selectModules found) := by
  have h := selected_foldl found
  have hmodules : (selectModules found).map Path.withoutSuffix =
      (found.foldl select []).map Prod.fst := by
    rw [selectModules, List.map_map]
    exact List.map_congr_left h.own
  have hentry : ∀ file ∈ selectModules found, ∃ entry ∈ found.foldl select [], entry.2 = file :=
    fun file hfile => List.mem_map.mp hfile
  refine ⟨hmodules.trans h.modules, ?_, ?_, ?_⟩
  · intro file hfile
    obtain ⟨entry, hmem, rfl⟩ := hentry file hfile
    exact h.mem entry hmem
  · intro file hfile other hother hmodule hsignature
    obtain ⟨entry, hmem, rfl⟩ := hentry file hfile
    have hsuffix :=
      h.signature entry hmem other hother (hmodule.trans (h.own entry hmem)) hsignature
    apply Path.eq_of_withoutSuffix hmodule.symm (hsuffix.trans hsignature.symm)
    rw [hsuffix]
    decide
  · intro file hfile hnone
    obtain ⟨entry, hmem, rfl⟩ := hentry file hfile
    have hmet := h.mem entry hmem
    exact (suffix_of_isSourceName (hsources _ hmet)).resolve_right (hnone _ hmet rfl)

namespace FileSystem

variable {fs : FileSystem} {levels : Nat} {path : Path} {name : Text} {names : List Text}
  {paths : List Path}

theorem Finds.isSourceName (h : fs.Finds .sources path names) :
    ∃ above name, names = above ++ [name] ∧ isSourceName name = true := by
  induction h with
  | here _ _ _ hlists => exact ⟨[], _, rfl, (Bool.and_eq_true_iff.mp hlists).2⟩
  | inside _ _ _ _ ih =>
    obtain ⟨above, name, rfl, hname⟩ := ih
    exact ⟨_ :: above, name, rfl, hname⟩

theorem isSourceName_of_mem_sources {directory file : Path} {files : List Path}
    (h : fs.sources directory = .ok files) (hfile : file ∈ files) :
    isSourceName file.name = true := by
  obtain ⟨listed, rfl, hlisted⟩ := listing_walk h
  obtain ⟨names, hnames, rfl⟩ := List.mem_map.mp hfile
  obtain ⟨above, name, rfl, hname⟩ := ((hlisted.mem_iff names).mp hnames).isSourceName
  rw [← Path.child_below]
  simpa [Path.name, Path.child] using hname

theorem isSourceName_of_mem_listings {directories : List Path} {listings : List (List Path)}
    (h : List.Forall₂ (fun directory files => fs.sources directory = .ok files) directories
      listings) {file : Path} (hfile : file ∈ listings.flatten) :
    isSourceName file.name = true := by
  induction h with
  | nil => cases hfile
  | cons hlisted _ ih =>
    rcases List.mem_append.mp hfile with hfile | hfile
    · exact isSourceName_of_mem_sources hlisted hfile
    · exact ih hfile

/-- Where no directory is, a walk lists nothing. -/
theorem walk_of_names_nil {search : Search} (h : fs.names path = .ok []) :
    fs.walk search levels path = .ok [] := by
  cases levels <;>
  · rw [walk, among, h]
    rfl

/-- A directory that is missing contributes no files. -/
theorem sources_of_missing {directory : Path} {refusal : Refusal}
    (h : fs.find .look directory = .error refusal) (hmissing : ¬refusal.Blocks) :
    fs.sources directory = .ok [] := by
  apply walk_of_names_nil
  rw [FileSystem.names, hasDirectory, look_of_missing h hmissing]
  rfl

/-- One file is selected for each module among the source files in directories, whichever of them
overlap or recur; those that are missing contribute none.  The selection is refused exactly if the
walk below one of the directories is, by the first such walk, and a walk is refused exactly if there
is an obstacle. -/
theorem selection_of_modules (fs : FileSystem) (directories : List Path) :
    (∀ fault, fs.modules directories = .error fault ↔ ∃ before directory after,
      directories = before ++ directory :: after ∧
        (∀ other ∈ before, ∃ files, fs.sources other = .ok files) ∧
        fs.sources directory = .error fault) ∧
    (∀ directory fault, fs.sources directory = .error fault →
      fs.Obstacle .sources (fs.limit.levels .sources) directory fault) ∧
    (∀ directory fault, fs.Obstacle .sources (fs.limit.levels .sources) directory fault →
      ∃ fault', fs.sources directory = .error fault') ∧
    (∀ directory refusal, fs.find .look directory = .error refusal → ¬refusal.Blocks →
      fs.sources directory = .ok []) ∧
    ∀ listings, List.Forall₂ (fun directory files => fs.sources directory = .ok files)
        directories listings →
      ∃ files, fs.modules directories = .ok files ∧ Selection listings.flatten files := by
  refine ⟨fun fault => ?_, fun directory fault => obstacle_of_walk,
    fun directory fault => walk_of_obstacle, fun directory refusal => sources_of_missing,
    fun listings hlistings => ?_⟩
  · rw [modules, map_error_iff, flatMapM_eq_error_iff]
  · refine ⟨_, ?_, selection_selectModules fun _ => isSourceName_of_mem_listings hlistings⟩
    rw [modules, flatMapM_eq_ok hlistings]
    rfl

/-! ### A name that is too long -/

/-- A missing directory with a name that is too long refuses the selection. -/
theorem modules_overlong_name :
    (ofTree .empty ⟨.root, []⟩).modules [⟨.root, [List.replicate 256 'a']⟩] =
      .error (.system (.about .nameTooLong ('/' :: List.replicate 256 'a'))) := by
  decide +kernel

end FileSystem

end ForeignBindings
