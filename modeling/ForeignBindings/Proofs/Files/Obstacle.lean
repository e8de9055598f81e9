import ForeignBindings.Proofs.Files.Refusal

/-! How a walk goes.  It enters the directories that are not passed over, one below the other, and
fails exactly if there is an obstacle: a directory that it enters and cannot list, an entry that it
comes by and cannot look at, or one that is further down than it can go.  A walk that does not fail
lists what it finds, in the order of the names; and what it contains of another walk, from a
directory further down, does not fail either. -/

namespace ForeignBindings

/-- The path that goes on through more names. -/
def Path.below (path : Path) (names : List Text) : Path := ⟨path.anchor, path.parts ++ names⟩

theorem Path.below_nil (path : Path) : path.below [] = path := by
  rw [below, List.append_nil]

theorem Path.below_child (path : Path) (first : Text) (names : List Text) :
    (path.child first).below names = path.below (first :: names) := by
  simp [below, child]

theorem Path.below_injective (path : Path) : Function.Injective path.below := fun _ _ h =>
  List.append_cancel_left (Path.mk.inj h).2

theorem Path.child_below (path : Path) (above : List Text) (name : Text) :
    (path.below above).child name = path.below (above ++ [name]) := by
  rw [child, below, below, List.append_assoc]

theorem Path.parent_below_concat (path : Path) (above : List Text) (name : Text) :
    (path.below (above ++ [name])).parent = path.below above := by
  rw [below, parent, ← List.append_assoc, List.dropLast_concat]
  rfl

/-! ### One step -/

namespace Search

variable {search : Search} {name : Text}

theorem looksAt_of_shown (search : Search) (h : isIgnored name = false) :
    search.looksAt name = true := by
  cases search with
  | directories => rfl
  | sources => rw [looksAt, h]; rfl

theorem shown_of_lists {isDirectory : Bool} (hlooks : search.looksAt name = true)
    (h : search.lists name isDirectory = true) : isIgnored name = false := by
  cases search with
  | directories => simpa using (Bool.and_eq_true_iff.mp h).2
  | sources => simpa [looksAt] using hlooks

end Search

namespace FileSystem

variable {fs : FileSystem} {search : Search} {levels : Nat} {path : Path} {name : Text}
  {names : List Text} {paths : List Path} {fault : WalkFault}

/-- A directory with an entry of the given name is at the path, and can be listed. -/
def Holds (fs : FileSystem) (path : Path) (name : Text) : Prop :=
  ∃ listed, fs.names path = .ok listed ∧ name ∈ listed

theorem names_of_walk (h : fs.walk search levels path = .ok paths) :
    ∃ listed, fs.names path = .ok listed := by
  cases levels <;>
  · obtain ⟨listed, hlisted, -⟩ := bind_eq_ok_iff.mp h
    exact ⟨listed, mapError_eq_ok_iff.mp hlisted⟩

/-- What a walk does with an entry of a directory that it has entered. -/
def visit (fs : FileSystem) (search : Search) (levels : Nat) (path : Path) (name : Text) :
    Except WalkFault (List Path) := do
  let isDirectory ← (fs.hasDirectory (path.child name)).mapError .system
  let below ← (if isDirectory && !isIgnored name then fs.walk search levels (path.child name)
    else .ok [])
  return (if search.lists name isDirectory then [path.child name] else []) ++ below

theorem among_eq_error {entries : Text → Except WalkFault (List Path)}
    (h : fs.among search path entries = .error fault) :
    (∃ e, fs.names path = .error e ∧ .system e = fault) ∨
      ∃ name, fs.Holds path name ∧ search.looksAt name = true ∧ entries name = .error fault := by
  rcases bind_eq_error_iff.mp h with hnames | ⟨listed, hnames, hentries⟩
  · exact .inl (mapError_eq_error_iff.mp hnames)
  · obtain ⟨name, hname, hentry⟩ := flatMapM_error hentries
    obtain ⟨hmem, hlooks⟩ := List.mem_filter.mp hname
    exact .inr ⟨name, ⟨listed, mapError_eq_ok_iff.mp hnames, hmem⟩, hlooks, hentry⟩

theorem visit_eq_error (h : fs.visit search levels path name = .error fault) :
    (∃ e, fs.hasDirectory (path.child name) = .error e ∧ .system e = fault) ∨
      fs.hasDirectory (path.child name) = .ok true ∧ isIgnored name = false ∧
        fs.walk search levels (path.child name) = .error fault := by
  rcases bind_eq_error_iff.mp h with hkind | ⟨isDirectory, hkind, hrest⟩
  · exact .inl (mapError_eq_error_iff.mp hkind)
  · rcases bind_eq_error_iff.mp hrest with hbelow | ⟨below, -, hlisted⟩
    · split at hbelow
      · rename_i hdown
        obtain ⟨rfl, hshown⟩ := Bool.and_eq_true_iff.mp hdown
        exact .inr ⟨mapError_eq_ok_iff.mp hkind, by simpa using hshown, hbelow⟩
      · cases hbelow
    · cases hlisted

theorem visit_eq_ok_iff : fs.visit search levels path name = .ok paths ↔ ∃ isDirectory below,
    fs.hasDirectory (path.child name) = .ok isDirectory ∧
      (if isDirectory && !isIgnored name then fs.walk search levels (path.child name)
        else .ok []) = .ok below ∧
      (if search.lists name isDirectory then [path.child name] else []) ++ below = paths := by
  simp only [visit, bind_eq_ok_iff, mapError_eq_ok_iff, pure, Except.pure, Except.ok.injEq]
  constructor
  · rintro ⟨isDirectory, hkind, below, hbelow, hpaths⟩
    exact ⟨isDirectory, below, hkind, hbelow, hpaths⟩
  · rintro ⟨isDirectory, below, hkind, hbelow, hpaths⟩
    exact ⟨isDirectory, hkind, below, hbelow, hpaths⟩

/-- A walk that does not fail has looked at each entry that it came by, and has gone on below. -/
theorem visit_of_walk (h : fs.walk search levels path = .ok paths) (hholds : fs.Holds path name)
    (hlooks : search.looksAt name = true) : ∃ rest visited, levels = rest + 1 ∧
      fs.visit search rest path name = .ok visited ∧ ∀ p ∈ visited, p ∈ paths := by
  obtain ⟨listed, hlisted, hname⟩ := hholds
  have hmem := List.mem_filter.mpr ⟨hname, hlooks⟩
  cases levels with
  | zero =>
    obtain ⟨listed', hlisted', hentries⟩ := bind_eq_ok_iff.mp h
    obtain rfl := Except.ok.inj (hlisted.symm.trans (mapError_eq_ok_iff.mp hlisted'))
    obtain ⟨visited, hvisited, -⟩ := part_of_flatMapM hentries hmem
    -- no level is left for the entry
    cases hvisited
  | succ rest =>
    obtain ⟨listed', hlisted', hentries⟩ := bind_eq_ok_iff.mp h
    obtain rfl := Except.ok.inj (hlisted.symm.trans (mapError_eq_ok_iff.mp hlisted'))
    obtain ⟨visited, hvisited, hpaths⟩ := part_of_flatMapM hentries hmem
    exact ⟨rest, visited, rfl, hvisited, hpaths⟩

/-! ### Obstacles -/

/-- From the directory at a path, the names lead down to another one, none of them passed over. -/
inductive Enters (fs : FileSystem) : Path → List Text → Prop
  | start (path : Path) : Enters fs path []
  | down {path : Path} {name : Text} {names : List Text} (hholds : fs.Holds path name)
    (hshown : isIgnored name = false) (hdirectory : fs.hasDirectory (path.child name) = .ok true)
    (h : Enters fs (path.child name) names) : Enters fs path (name :: names)

/-- What a walk that can go down so many levels from a path cannot pass: a directory that it enters
and cannot list, an entry that it comes by and cannot look at, and one that is too far down. -/
inductive Obstacle (fs : FileSystem) (search : Search) (levels : Nat) (path : Path) :
    WalkFault → Prop
  | directory {names : List Text} {e : SystemError} (henters : fs.Enters path names)
    (h : fs.names (path.below names) = .error e) : Obstacle fs search levels path (.system e)
  | entry {names : List Text} {name : Text} {e : SystemError} (henters : fs.Enters path names)
    (hholds : fs.Holds (path.below names) name) (hlooks : search.looksAt name = true)
    (h : fs.hasDirectory (path.below (names ++ [name])) = .error e) :
    Obstacle fs search levels path (.system e)
  | depth {names : List Text} {name : Text} (henters : fs.Enters path names)
    (hholds : fs.Holds (path.below names) name) (hlooks : search.looksAt name = true)
    (h : levels < names.length + 1) : Obstacle fs search levels path (.tooDeep fs.limit.wording)

theorem Obstacle.down (h : fs.Obstacle search levels (path.child name) fault)
    (hholds : fs.Holds path name) (hshown : isIgnored name = false)
    (hdirectory : fs.hasDirectory (path.child name) = .ok true) :
    fs.Obstacle search (levels + 1) path fault := by
  cases h with
  | directory henters h =>
    rw [Path.below_child] at h
    exact .directory (.down hholds hshown hdirectory henters) h
  | entry henters hbelow hlooks h =>
    rw [Path.below_child] at hbelow h
    exact .entry (.down hholds hshown hdirectory henters) hbelow hlooks h
  | depth henters hbelow hlooks h =>
    rw [Path.below_child] at hbelow
    exact .depth (.down hholds hshown hdirectory henters) hbelow hlooks (Nat.succ_lt_succ h)

/-- What stops a walk is an obstacle. -/
theorem obstacle_of_walk (h : fs.walk search levels path = .error fault) :
    fs.Obstacle search levels path fault := by
  induction levels generalizing path with
  | zero =>
    rcases among_eq_error h with ⟨e, hnames, rfl⟩ | ⟨name, hholds, hlooks, hentry⟩
    · exact .directory (.start path) (path.below_nil.symm ▸ hnames)
    · obtain rfl := Except.error.inj hentry
      exact .depth (.start path) (path.below_nil.symm ▸ hholds) hlooks Nat.zero_lt_one
  | succ levels ih =>
    rcases among_eq_error h with ⟨e, hnames, rfl⟩ | ⟨name, hholds, hlooks, hentry⟩
    · exact .directory (.start path) (path.below_nil.symm ▸ hnames)
    · rcases visit_eq_error hentry with ⟨e, hkind, rfl⟩ | ⟨hdirectory, hshown, hbelow⟩
      · exact .entry (.start path) (path.below_nil.symm ▸ hholds) hlooks hkind
      · exact (ih hbelow).down hholds hshown hdirectory

/-- A walk contains the walk from each directory that it enters. -/
theorem walk_of_enters (henters : fs.Enters path names)
    (h : fs.walk search levels path = .ok paths) : ∃ rest below, levels = names.length + rest ∧
      fs.walk search rest (path.below names) = .ok below ∧ ∀ p ∈ below, p ∈ paths := by
  induction henters generalizing levels paths with
  | start path => exact ⟨levels, paths, (Nat.zero_add _).symm, path.below_nil.symm ▸ h, fun _ => id⟩
  | @down path name names hholds hshown hdirectory _ ih =>
    obtain ⟨rest, visited, rfl, hvisited, hpaths⟩ :=
      visit_of_walk h hholds (search.looksAt_of_shown hshown)
    obtain ⟨isDirectory, below, hkind, hbelow, rfl⟩ := visit_eq_ok_iff.mp hvisited
    obtain rfl := Except.ok.inj (hdirectory.symm.trans hkind)
    rw [hshown] at hbelow
    change fs.walk search rest (path.child name) = .ok below at hbelow
    obtain ⟨rest', deeper, rfl, hdeeper, hmem⟩ := ih hbelow
    rw [Path.below_child] at hdeeper
    refine ⟨rest', deeper, by rw [List.length_cons]; omega, hdeeper, fun p hp => ?_⟩
    exact hpaths p (List.mem_append_right _ (hmem p hp))

/-- A walk does not get past an obstacle. -/
theorem walk_of_obstacle (h : fs.Obstacle search levels path fault) :
    ∃ fault', fs.walk search levels path = .error fault' := by
  cases hwalk : fs.walk search levels path with
  | error fault' => exact ⟨fault', rfl⟩
  | ok paths =>
    exfalso
    -- a walk that gets through has been where the obstacle is
    cases h with
    | @directory names e henters h =>
      obtain ⟨rest, below, -, hbelow, -⟩ := walk_of_enters henters hwalk
      obtain ⟨listed, hlisted⟩ := names_of_walk hbelow
      cases h.symm.trans hlisted
    | @entry names name e henters hholds hlooks h =>
      obtain ⟨rest, below, -, hbelow, -⟩ := walk_of_enters henters hwalk
      obtain ⟨_, visited, -, hvisited, -⟩ := visit_of_walk hbelow hholds hlooks
      obtain ⟨isDirectory, _, hkind, -⟩ := visit_eq_ok_iff.mp hvisited
      rw [Path.child_below] at hkind
      cases h.symm.trans hkind
    | @depth names name henters hholds hlooks h =>
      obtain ⟨rest, below, rfl, hbelow, -⟩ := walk_of_enters henters hwalk
      obtain ⟨_, _, rfl, -⟩ := visit_of_walk hbelow hholds hlooks
      omega

theorem walk_fails_iff :
    (∃ fault, fs.walk search levels path = .error fault) ↔
      ∃ fault, fs.Obstacle search levels path fault :=
  ⟨fun ⟨_, h⟩ => ⟨_, obstacle_of_walk h⟩, fun ⟨_, h⟩ => walk_of_obstacle h⟩

end FileSystem

end ForeignBindings
