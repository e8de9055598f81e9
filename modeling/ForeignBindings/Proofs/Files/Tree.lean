import ForeignBindings.Files.Tree
import ForeignBindings.Proofs.Text.Catalog
import Mathlib.Data.List.Basic

/-! Trees as maps from names.  What the names lead to, one entry after the other, is what following
a path without double dots finds; a change to the entries of one directory is seen below that
directory and nowhere else; and what holds of a tree with everything below it, the order of entries
and the names that they have, is kept where a file is put into it. -/

namespace ForeignBindings

namespace FileTree

variable {tree found new : FileTree} {es : Catalog FileTree}

/-! ### What names lead to -/

/-- What the names lead to from entry to entry. -/
def reach? : List Text → FileTree → Option FileTree
  | [], tree => some tree
  | _ :: _, .file _ => none
  | name :: rest, .directory es => (es.lookup name).bind (reach? rest)

theorem reach?_append (names rest : List Text) (tree : FileTree) :
    tree.reach? (names ++ rest) = (tree.reach? names).bind (reach? rest) := by
  induction names generalizing tree with
  | nil => rfl
  | cons name names ih =>
    cases tree with
    | file bytes => rfl
    | directory es =>
      rw [List.cons_append, reach?, reach?, Option.bind_assoc]
      exact congrArg _ (funext ih)

theorem reach?_singleton (es : Catalog FileTree) (name : Text) :
    reach? [name] (.directory es) = es.lookup name := by
  rw [reach?]
  cases es.lookup name <;> rfl

/-- A name that can be followed leads out of a directory, up or down. -/
theorem follow_cons {above : List FileTree} {name : Text} {rest : List Text}
    (h : follow above tree (name :: rest) = .ok found) : ∃ es, tree = .directory es ∧
      ((name = Path.parentName ∧ follow above.tail (above.headD tree) rest = .ok found) ∨
        (name ≠ Path.parentName ∧ ∃ next, es.lookup name = some next ∧
          follow (tree :: above) next rest = .ok found)) := by
  cases tree with
  | file bytes => cases h
  | directory es =>
    refine ⟨es, rfl, ?_⟩
    by_cases hup : name = Path.parentName
    · refine .inl ⟨hup, ?_⟩
      cases above <;> rwa [follow, if_pos hup] at h
    · refine .inr ⟨hup, ?_⟩
      cases above <;>
      · rw [follow, if_neg hup] at h
        split at h
        · cases h
        · split at h
          · rename_i next hnext
            exact ⟨next, hnext, h⟩
          · cases h

/-- What follows names depends on what these lead to, and on the directories above that. -/
theorem exists_follow_append {names : List Text} {above : List FileTree}
    (h : follow above tree names = .ok found) :
    ∃ above', ∀ rest, follow above tree (names ++ rest) = follow above' found rest := by
  induction names generalizing above tree with
  | nil =>
    obtain rfl : tree = found := by cases above <;> exact Except.ok.inj h
    exact ⟨above, fun rest => rfl⟩
  | cons name names ih =>
    obtain ⟨es, rfl, ⟨hup, hfollow⟩ | ⟨hup, next, hnext, hfollow⟩⟩ := follow_cons h
    · obtain ⟨above', hrest⟩ := ih hfollow
      refine ⟨above', fun rest => ?_⟩
      rw [← hrest]
      cases above <;> rw [List.cons_append, follow, if_pos hup] <;> rfl
    · obtain ⟨above', hrest⟩ := ih hfollow
      refine ⟨above', fun rest => ?_⟩
      rw [← hrest]
      cases above <;>
      · rw [follow, if_neg hup] at h
        split at h
        · cases h
        · rw [List.cons_append, follow, if_neg hup, if_neg ‹_›, hnext]

/-- Without double dots the directories above play no part. -/
theorem reach?_of_follow {names : List Text} (hnames : ∀ name ∈ names, name ≠ Path.parentName)
    {above : List FileTree} (h : follow above tree names = .ok found) :
    tree.reach? names = some found := by
  induction names generalizing above tree with
  | nil => exact congrArg some (Except.ok.inj h)
  | cons name rest ih =>
    obtain ⟨hname, hrest⟩ := List.forall_mem_cons.mp hnames
    obtain ⟨es, rfl, ⟨hup, -⟩ | ⟨-, next, hnext, hfollow⟩⟩ := follow_cons h
    · exact absurd hup hname
    · rw [reach?, hnext]
      exact ih hrest hfollow

/-- A file or a directory, without what is below it. -/
inductive Node
  | file (bytes : List UInt8)
  | directory
  deriving DecidableEq

def node : FileTree → Node
  | .file bytes => .file bytes
  | .directory _ => .directory

/-- The file or the directory that the names lead to. -/
def node? (tree : FileTree) (names : List Text) : Option Node := (tree.reach? names).map node

/-! ### Order -/

/-- Every directory keeps its entries in increasing order of their names. -/
inductive Ordered : FileTree → Prop
  | file {bytes : List UInt8} : Ordered (.file bytes)
  | directory {es : Catalog FileTree} (sorted : es.Sorted)
    (each : ∀ entry ∈ es, Ordered entry.2) : Ordered (.directory es)

theorem Ordered.sorted (h : Ordered (.directory es)) : es.Sorted := by
  cases h
  assumption

theorem Ordered.each (h : Ordered (.directory es)) : ∀ entry ∈ es, entry.2.Ordered := by
  cases h
  assumption

theorem ordered_empty : empty.Ordered := .directory List.Pairwise.nil (by simp)

theorem Ordered.of_lookup (h : Ordered (.directory es)) {name : Text}
    (hlookup : es.lookup name = some tree) : tree.Ordered :=
  h.each _ (h.sorted.lookup_eq_some_iff.mp hlookup)

theorem Ordered.insert (h : Ordered (.directory es)) (hnew : new.Ordered) (name : Text) :
    Ordered (.directory (es.insert name new)) := by
  refine .directory h.sorted.insert fun entry hentry => ?_
  rcases Catalog.mem_insert hentry with rfl | hentry
  · exact hnew
  · exact h.each entry hentry

theorem Ordered.put (h : tree.Ordered) (hnew : new.Ordered) (names : List Text) :
    (put new names tree).Ordered := by
  induction names generalizing tree with
  | nil => exact hnew
  | cons name rest ih =>
    have hentries : Ordered (.directory tree.entries) := by
      cases tree with
      | file bytes => exact ordered_empty
      | directory es => exact h
    refine hentries.insert (ih ?_) name
    cases hlookup : tree.entries.lookup name with
    | none => exact ordered_empty
    | some next => exact hentries.of_lookup hlookup

/-! ### Changes to one directory -/

variable {change : Catalog FileTree → Catalog FileTree}

theorem Ordered.alter (h : tree.Ordered)
    (hchange : ∀ es, Ordered (.directory es) → Ordered (.directory (change es)))
    (names : List Text) : (alter change names tree).Ordered := by
  induction names generalizing tree with
  | nil =>
    cases tree with
    | file bytes => exact h
    | directory es => exact hchange es h
  | cons name rest ih =>
    cases tree with
    | file bytes => exact h
    | directory es =>
      refine .directory ?_ ?_
      · rw [Catalog.Sorted, Catalog.names, List.map_map]
        exact h.sorted
      · rw [List.forall_mem_map]
        intro entry hentry
        dsimp only
        split
        · exact ih (h.each entry hentry)
        · exact h.each entry hentry

theorem alter_alter (change' : Catalog FileTree → Catalog FileTree) (names : List Text)
    (tree : FileTree) :
    alter change names (alter change' names tree) = alter (change ∘ change') names tree := by
  induction names generalizing tree with
  | nil => cases tree <;> rfl
  | cons name rest ih =>
    cases tree with
    | file bytes => rfl
    | directory es =>
      rw [alter, alter, alter, List.map_map]
      refine congrArg _ (List.map_congr_left fun entry _ => ?_)
      dsimp only [Function.comp]
      split
      · rw [ih]
      · rfl

/-- Each name has one entry, so a change that leaves the entries of the directory at the end of the
names leaves the tree. -/
theorem alter_eq_self {names : List Text} (hordered : tree.Ordered)
    (h : tree.reach? names = some (.directory es)) (hchange : change es = es) :
    alter change names tree = tree := by
  induction names generalizing tree with
  | nil =>
    obtain rfl := Option.some.inj h
    exact congrArg _ hchange
  | cons name rest ih =>
    cases tree with
    | file bytes => rfl
    | directory entries =>
      obtain ⟨next, hnext, hrest⟩ := Option.bind_eq_some_iff.mp h
      rw [alter]
      refine congrArg _ ((List.map_congr_left fun entry hentry => ?_).trans (List.map_id _))
      obtain ⟨other, tree⟩ := entry
      dsimp only
      split
      · rename_i heq
        subst heq
        have hlookup := hordered.sorted.lookup_eq_some_iff.mpr hentry
        obtain rfl := Option.some.inj (hnext.symm.trans hlookup)
        rw [ih (hordered.of_lookup hlookup) hrest]
        rfl
      · rfl

/-- A file under a name that was free is all that an insertion adds. -/
theorem node?_alter_insert {parts : List Text} {name : Text}
    (h : tree.reach? parts = some (.directory es)) (hfree : name ∉ es.names)
    (bytes : List UInt8) (names : List Text) :
    (alter (Catalog.insert name (.file bytes)) parts tree).node? names =
      if names = parts ++ [name] then some (.file bytes) else tree.node? names := by
  induction parts generalizing tree names with
  | nil =>
    obtain rfl := Option.some.inj h
    cases names with
    | nil => rfl
    | cons first rest =>
      rw [alter, node?, node?, reach?, reach?, Catalog.lookup_insert]
      by_cases hfirst : first = name
      · subst hfirst
        rw [if_pos rfl, Catalog.lookup_eq_none_iff.mpr hfree]
        cases rest <;> simp [reach?, node]
      · rw [if_neg hfirst, if_neg (by simp [hfirst])]
  | cons part parts ih =>
    cases tree with
    | file bytes => cases h
    | directory entries =>
      obtain ⟨next, hnext, hrest⟩ := Option.bind_eq_some_iff.mp h
      cases names with
      | nil => rfl
      | cons first rest =>
        rw [alter, node?, node?, reach?, reach?, Catalog.lookup_map entries fun other tree =>
          if other = part then alter (Catalog.insert name (.file bytes)) parts tree else tree]
        by_cases hfirst : first = part
        · subst hfirst
          simpa [hnext, node?] using ih hrest rest
        · simp [hfirst]

end FileTree

/-! ### Names -/

namespace FileTree

variable {tree found new : FileTree} {es : Catalog FileTree}

/-- No name in the tree has a null character. -/
inductive Named : FileTree → Prop
  | file {bytes : List UInt8} : Named (.file bytes)
  | directory {es : Catalog FileTree} (names : ∀ entry ∈ es, '\x00' ∉ entry.1)
    (each : ∀ entry ∈ es, Named entry.2) : Named (.directory es)

theorem named_empty : empty.Named := .directory (by simp) (by simp)

theorem Named.of_mem (h : Named (.directory es)) {entry : Text × FileTree} (hentry : entry ∈ es) :
    '\x00' ∉ entry.1 ∧ entry.2.Named := by
  cases h with
  | directory names each => exact ⟨names entry hentry, each entry hentry⟩

theorem Named.of_lookup (h : Named (.directory es)) {name : Text}
    (hlookup : es.lookup name = some tree) : '\x00' ∉ name ∧ tree.Named := by
  obtain ⟨before, after, rfl, -⟩ := List.lookup_eq_some_iff.mp hlookup
  exact h.of_mem (List.mem_append_right before List.mem_cons_self)

theorem Named.insert (h : Named (.directory es)) (hnew : new.Named) {name : Text}
    (hname : '\x00' ∉ name) : Named (.directory (es.insert name new)) := by
  have hentries : ∀ entry ∈ es.insert name new, '\x00' ∉ entry.1 ∧ entry.2.Named := by
    intro entry hentry
    rcases Catalog.mem_insert hentry with rfl | hentry
    · exact ⟨hname, hnew⟩
    · exact h.of_mem hentry
  exact .directory (fun entry hentry => (hentries entry hentry).1)
    fun entry hentry => (hentries entry hentry).2

theorem Named.put (h : tree.Named) (hnew : new.Named) {names : List Text}
    (hnames : ∀ name ∈ names, '\x00' ∉ name) : (put new names tree).Named := by
  induction names generalizing tree with
  | nil => exact hnew
  | cons name rest ih =>
    obtain ⟨hname, hrest⟩ := List.forall_mem_cons.mp hnames
    have hentries : Named (.directory tree.entries) := by
      cases tree with
      | file bytes => exact named_empty
      | directory es => exact h
    refine hentries.insert (ih ?_ hrest) hname
    cases hlookup : tree.entries.lookup name with
    | none => exact named_empty
    | some next => exact (hentries.of_lookup hlookup).2

theorem Named.follow {names : List Text} {above : List FileTree} (h : tree.Named)
    (habove : ∀ up ∈ above, up.Named) (hfound : tree.follow above names = .ok found) :
    found.Named := by
  induction names generalizing above tree with
  | nil => exact Except.ok.inj hfound ▸ h
  | cons name rest ih =>
    obtain ⟨es, rfl, ⟨-, hup⟩ | ⟨-, next, hnext, hdown⟩⟩ := follow_cons hfound
    · cases above with
      | nil => exact ih h habove hup
      | cons up more =>
        obtain ⟨hfirst, hmore⟩ := List.forall_mem_cons.mp habove
        exact ih hfirst hmore hup
    · exact ih (h.of_lookup hnext).2 (List.forall_mem_cons.mpr ⟨h, habove⟩) hdown

end FileTree

namespace FileSystem

variable {fs : FileSystem} {access : Access} {path : Path} {found : FileTree}

theorem find_eq_ok_iff : fs.find access path = .ok found ↔ path.hasNull = false ∧
    Utf8.size path.text ≤ maxPathSize ∧ fs.permits access path = true ∧
      fs.tree.follow [] (fs.directory.join path).parts = .ok found := by
  rw [find]
  split
  · rename_i hnull
    simp [hnull]
  · rename_i hnull
    split
    · rename_i hlong
      simp [Nat.not_le.mpr hlong]
    · rename_i hshort
      have hsize := Nat.not_lt.mp hshort
      cases fs.permits access path <;> simp [hnull, hsize]

theorem follow_of_find (h : fs.find access path = .ok found) :
    fs.tree.follow [] (fs.directory.join path).parts = .ok found :=
  (find_eq_ok_iff.mp h).2.2.2

theorem named_of_find (hnamed : fs.tree.Named) (h : fs.find access path = .ok found) :
    found.Named :=
  hnamed.follow (by simp) (follow_of_find h)

end FileSystem

end ForeignBindings
