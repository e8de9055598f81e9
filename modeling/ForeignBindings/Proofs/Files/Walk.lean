import ForeignBindings.Proofs.Files.Obstacle
import Mathlib.Data.List.Basic

/-! What the walks list.  A walk that does not fail lists each path that it finds once, in the
lexicographic order of the names; and the names that it finds are those that lead, in the tree, to a
source file or to a directory, none of them passed over. -/

namespace ForeignBindings

/-! ### Names of sources -/

theorem Path.cutSuffix_append (name : Text) :
    (cutSuffix name).1 ++ (cutSuffix name).2 = name := by
  unfold cutSuffix
  dsimp only
  split
  · exact List.take_append_drop _ name
  · exact List.append_nil name

theorem isIgnored_eq_false_iff {name : Text} :
    isIgnored name = false ↔ name.head? ≠ some '.' ∧ name ≠ packagesName := by
  rw [isIgnored, Bool.or_eq_false_iff, beq_eq_false_iff_ne, beq_eq_false_iff_ne]

theorem Path.cutSuffix_append_dot {stem extension : Text} (hstem : stem ≠ [])
    (hextension : extension ≠ []) (hdot : '.' ∉ extension) :
    cutSuffix (stem ++ '.' :: extension) = (stem, '.' :: extension) := by
  have htail : (stem ++ '.' :: extension).reverse.takeWhile (· != '.') = extension.reverse := by
    have hsplit : (stem ++ '.' :: extension).reverse =
        extension.reverse ++ '.' :: stem.reverse := by simp
    rw [hsplit, List.takeWhile_append_of_pos, List.takeWhile_cons_of_neg (by simp),
      List.append_nil]
    intro c hc
    rw [bne_iff_ne]
    rintro rfl
    exact hdot (List.mem_reverse.mp hc)
  have hlength : (stem ++ '.' :: extension).length - extension.length - 1 = stem.length := by
    simp only [List.length_append, List.length_cons]
    omega
  have hpos := List.length_pos_iff.mpr hstem
  rw [cutSuffix, htail, List.length_reverse, hlength, if_pos ⟨hpos, by simpa using hextension⟩,
    List.take_left, List.drop_left]

/-- Unless a name begins with its last dot, it has a suffix exactly if it ends in it. -/
theorem isSourceName_iff {name : Text} (h : name.head? ≠ some '.') : isSourceName name = true ↔
    implementationSuffix <:+ name ∨ signatureSuffix <:+ name := by
  have hsuffix : ∀ extension : Text, extension ≠ [] → '.' ∉ extension →
      ((Path.cutSuffix name).2 = '.' :: extension ↔ '.' :: extension <:+ name) := by
    intro extension hextension hdot
    constructor
    · intro hcut
      exact ⟨_, hcut ▸ Path.cutSuffix_append name⟩
    · rintro ⟨stem, rfl⟩
      have hstem : stem ≠ [] := by
        rintro rfl
        exact h rfl
      rw [Path.cutSuffix_append_dot hstem hextension hdot]
  rw [isSourceName, Bool.or_eq_true, beq_iff_eq, beq_iff_eq]
  exact or_congr (hsuffix "res".toList (by decide) (by decide))
    (hsuffix "resi".toList (by decide) (by decide))

/-! ### Listings -/

/-- What has a property is listed once, in lexicographic order, and nothing else is. -/
structure Listing (P : List Text → Prop) (listed : List (List Text)) : Prop where
  ordered : listed.Pairwise (· < ·)
  mem_iff : ∀ names, names ∈ listed ↔ P names

theorem Listing.congr {P Q : List Text → Prop} {listed : List (List Text)} (h : Listing P listed)
    (hiff : ∀ names, P names ↔ Q names) : Listing Q listed :=
  ⟨h.ordered, fun names => (h.mem_iff names).trans (hiff names)⟩

theorem listing_nil {P : List Text → Prop} (h : ∀ names, ¬P names) : Listing P [] :=
  ⟨.nil, by simpa using h⟩

/-- Below an entry that is listed or not, what is listed from there on is listed after it. -/
theorem Listing.cons {P : List Text → Prop} {listed : List (List Text)} (h : Listing P listed)
    (hne : ∀ names, P names → names ≠ []) (name : Text) (isListed : Bool) :
    Listing (fun ns => ns.head? = some name ∧ (ns.tail = [] ∧ isListed = true ∨ P ns.tail))
      ((if isListed then [[name]] else []) ++ listed.map (name :: ·)) where
  ordered := by
    refine List.pairwise_append.mpr ⟨by split <;> simp, ?_, ?_⟩
    · exact List.pairwise_map.mpr
        (h.ordered.imp fun hlt => List.cons_lt_cons_iff.mpr (.inr ⟨rfl, hlt⟩))
    · intro ns hns
      rw [List.forall_mem_map]
      intro rest hrest
      obtain rfl : ns = [name] := by
        split at hns
        · exact List.mem_singleton.mp hns
        · cases hns
      obtain ⟨first, more, rfl⟩ :=
        List.exists_cons_of_ne_nil (hne rest ((h.mem_iff rest).mp hrest))
      exact List.cons_lt_cons_iff.mpr (.inr ⟨rfl, List.nil_lt_cons _ _⟩)
  mem_iff := by
    intro ns
    rw [← h.mem_iff]
    cases ns with
    | nil => simp
    | cons first rest =>
      by_cases hname : name = first
      · cases isListed <;> simp [hname]
      · cases isListed <;> simp [hname, Ne.symm hname]

/-- If what begins with each of several names is listed, the lists one after the other list what
begins with any of them. -/
theorem listing_flatMapM {ε : Type} {path : Path} {P : List Text → Prop}
    {visit : Text → Except ε (List Path)} {names : List Text} {paths : List Path}
    (h : names.flatMapM visit = .ok paths) (hsorted : names.Pairwise (· < ·))
    (hpart : ∀ name ∈ names, ∀ visited, visit name = .ok visited → ∃ listed,
      visited = listed.map path.below ∧ Listing (fun ns => ns.head? = some name ∧ P ns) listed) :
    ∃ listed, paths = listed.map path.below ∧
      Listing (fun ns => (∃ name ∈ names, ns.head? = some name) ∧ P ns) listed := by
  induction names generalizing paths with
  | nil => exact ⟨[], (Except.ok.inj h).symm, listing_nil (by simp)⟩
  | cons name names ih =>
    obtain ⟨visited, more, hvisited, hmore, rfl⟩ := flatMapM_cons_eq_ok_iff.mp h
    obtain ⟨hfirst, hsorted⟩ := List.pairwise_cons.mp hsorted
    obtain ⟨hname, hnames⟩ := List.forall_mem_cons.mp hpart
    obtain ⟨listed, rfl, hlisted⟩ := hname visited hvisited
    obtain ⟨listed', rfl, hlisted'⟩ := ih hmore hsorted hnames
    refine ⟨listed ++ listed', by simp, ?_, fun ns => ?_⟩
    · refine List.pairwise_append.mpr ⟨hlisted.ordered, hlisted'.ordered, ?_⟩
      intro ns hns ns' hns'
      obtain ⟨hhead, -⟩ := (hlisted.mem_iff ns).mp hns
      obtain ⟨⟨other, hother, hhead'⟩, -⟩ := (hlisted'.mem_iff ns').mp hns'
      obtain ⟨rest, rfl⟩ := List.head?_eq_some_iff.mp hhead
      obtain ⟨rest', rfl⟩ := List.head?_eq_some_iff.mp hhead'
      exact List.cons_lt_cons_iff.mpr (.inl (hfirst other hother))
    · rw [List.mem_append, hlisted.mem_iff, hlisted'.mem_iff, List.exists_mem_cons_iff,
        or_and_right]

namespace FileSystem

variable {fs : FileSystem} {search : Search} {levels : Nat} {path : Path} {name : Text}
  {names : List Text} {paths : List Path}

/-- From the directory at a path, the names lead to something that a walk lists. -/
inductive Finds (fs : FileSystem) (search : Search) : Path → List Text → Prop
  | here {path : Path} {name : Text} {isDirectory : Bool} (hholds : fs.Holds path name)
    (hlooks : search.looksAt name = true)
    (hkind : fs.hasDirectory (path.child name) = .ok isDirectory)
    (hlists : search.lists name isDirectory = true) : Finds fs search path [name]
  | inside {path : Path} {name : Text} {names : List Text} (hholds : fs.Holds path name)
    (hshown : isIgnored name = false) (hdirectory : fs.hasDirectory (path.child name) = .ok true)
    (h : Finds fs search (path.child name) names) : Finds fs search path (name :: names)

theorem Finds.ne_nil (h : fs.Finds search path names) : names ≠ [] := by
  cases h <;> exact List.cons_ne_nil _ _

theorem Finds.exists_holds (h : fs.Finds search path names) : ∃ name, fs.Holds path name ∧
    search.looksAt name = true ∧ names.head? = some name := by
  cases h with
  | here hholds hlooks => exact ⟨_, hholds, hlooks, rfl⟩
  | inside hholds hshown => exact ⟨_, hholds, search.looksAt_of_shown hshown, rfl⟩

/-- What is found below an entry that was looked at: the entry, if it is listed, and what is found
from there on, if it is entered. -/
theorem finds_cons_iff {isDirectory : Bool} (hholds : fs.Holds path name)
    (hlooks : search.looksAt name = true)
    (hkind : fs.hasDirectory (path.child name) = .ok isDirectory) :
    fs.Finds search path (name :: names) ↔ names = [] ∧ search.lists name isDirectory = true ∨
      isDirectory = true ∧ isIgnored name = false ∧ fs.Finds search (path.child name) names := by
  constructor
  · intro h
    cases h with
    | here _ _ hkind' hlists =>
      obtain rfl := Except.ok.inj (hkind.symm.trans hkind')
      exact .inl ⟨rfl, hlists⟩
    | inside _ hshown hdirectory h =>
      obtain rfl := Except.ok.inj (hkind.symm.trans hdirectory)
      exact .inr ⟨rfl, hshown, h⟩
  · rintro (⟨rfl, hlists⟩ | ⟨rfl, hshown, h⟩)
    · exact .here hholds hlooks hkind hlists
    · exact .inside hholds hshown hkind h

theorem pairwise_of_names {listed : List Text} (h : fs.names path = .ok listed) :
    listed.Pairwise (· < ·) := by
  obtain ⟨isDirectory, hkind, hlisted⟩ := bind_eq_ok_iff.mp h
  cases isDirectory with
  | false =>
    obtain rfl := Except.ok.inj hlisted
    exact .nil
  | true =>
    obtain ⟨es, hfind⟩ := hasDirectory_eq_true_iff.mp hkind
    change fs.list path = .ok listed at hlisted
    rw [list_of_find hfind] at hlisted
    split at hlisted
    · obtain rfl := Except.ok.inj hlisted
      exact Catalog.sorted_sorted es
    · cases hlisted

/-- The entry is listed before what is below it. -/
theorem listing_visit (hholds : fs.Holds path name) (hlooks : search.looksAt name = true)
    {visited : List Path} (h : fs.visit search levels path name = .ok visited)
    (hbelow : ∀ below, fs.walk search levels (path.child name) = .ok below → ∃ listed,
      below = listed.map (path.child name).below ∧
        Listing (fs.Finds search (path.child name)) listed) : ∃ listed,
    visited = listed.map path.below ∧
      Listing (fun ns => ns.head? = some name ∧ fs.Finds search path ns) listed := by
  obtain ⟨isDirectory, below, hkind, hdown, rfl⟩ := visit_eq_ok_iff.mp h
  obtain ⟨listed, rfl, hlisted⟩ : ∃ listed, below = listed.map (path.child name).below ∧
      Listing (fun ns => isDirectory = true ∧ isIgnored name = false ∧
        fs.Finds search (path.child name) ns) listed := by
    split at hdown
    · rename_i hentered
      obtain ⟨listed, hbelow, hlisted⟩ := hbelow below hdown
      exact ⟨listed, hbelow, hlisted.congr fun ns => by simp_all⟩
    · rename_i hnot
      exact ⟨[], (Except.ok.inj hdown).symm, listing_nil (by simp_all)⟩
  have hpaths : listed.map (path.child name).below = (listed.map (name :: ·)).map path.below := by
    rw [List.map_map]
    exact List.map_congr_left fun ns _ => path.below_child name ns
  refine ⟨_, ?_, (hlisted.cons (fun ns hns => hns.2.2.ne_nil) name
    (search.lists name isDirectory)).congr fun ns => ?_⟩
  · rw [List.map_append, hpaths]
    split <;> rfl
  · cases ns with
    | nil => simp
    | cons first rest =>
      rw [List.head?_cons, Option.some.injEq, List.tail_cons]
      refine and_congr_right fun hname => ?_
      rw [hname, finds_cons_iff hholds hlooks hkind]

theorem listing_among {entries : Text → Except WalkFault (List Path)}
    (h : fs.among search path entries = .ok paths)
    (hentry : ∀ name, fs.Holds path name → search.looksAt name = true → ∀ visited,
      entries name = .ok visited → ∃ listed, visited = listed.map path.below ∧
        Listing (fun ns => ns.head? = some name ∧ fs.Finds search path ns) listed) :
    ∃ listed, paths = listed.map path.below ∧ Listing (fs.Finds search path) listed := by
  obtain ⟨listed, hlisted, hentries⟩ := bind_eq_ok_iff.mp h
  have hnames := mapError_eq_ok_iff.mp hlisted
  obtain ⟨all, rfl, hall⟩ := listing_flatMapM hentries ((pairwise_of_names hnames).filter _)
    fun name hname => by
      obtain ⟨hmem, hlooks⟩ := List.mem_filter.mp hname
      exact hentry name ⟨listed, hnames, hmem⟩ hlooks
  refine ⟨all, rfl, hall.congr fun ns => and_iff_right_of_imp fun hfinds => ?_⟩
  obtain ⟨name, ⟨listed', hnames', hmem⟩, hlooks, hhead⟩ := hfinds.exists_holds
  obtain rfl := Except.ok.inj (hnames.symm.trans hnames')
  exact ⟨name, List.mem_filter.mpr ⟨hmem, hlooks⟩, hhead⟩

/-- A walk that does not fail lists what it finds. -/
theorem listing_walk (h : fs.walk search levels path = .ok paths) : ∃ listed,
    paths = listed.map path.below ∧ Listing (fs.Finds search path) listed := by
  induction levels generalizing path paths with
  | zero => exact listing_among h fun _ _ _ _ hvisited => nomatch hvisited
  | succ levels ih =>
    exact listing_among h fun name hholds hlooks visited hvisited =>
      listing_visit hholds hlooks hvisited fun below => ih

end FileSystem

/-! ### Names in a tree -/

namespace FileTree

variable {tree : FileTree} {es : Catalog FileTree} {name : Text} {names : List Text}

/-- None of the names is passed over: none starts with a dot, and none is that of the installed
packages. -/
def Shown (names : List Text) : Prop := ∀ name ∈ names, name.head? ≠ some '.' ∧ name ≠ packagesName

/-- The names lead to a source file below a directory. -/
structure IsSource (tree : FileTree) (names : List Text) : Prop where
  shown : Shown names
  isFile : ∃ bytes, tree.node? names = some (.file bytes)
  suffix : ∃ name, names.getLast? = some name ∧
    (implementationSuffix <:+ name ∨ signatureSuffix <:+ name)

/-- The names lead to a directory below another one. -/
structure IsSubdirectory (tree : FileTree) (names : List Text) : Prop where
  shown : Shown names
  isDirectory : tree.node? names = some .directory
  ne_nil : names ≠ []

/-- What a walk is to list. -/
def IsListed : Search → FileTree → List Text → Prop
  | .sources => IsSource
  | .directories => IsSubdirectory

theorem shown_cons : Shown (name :: names) ↔ isIgnored name = false ∧ Shown names := by
  rw [Shown, List.forall_mem_cons, isIgnored_eq_false_iff]
  rfl

theorem node?_cons : (directory es).node? (name :: names) =
    (es.lookup name).bind fun next => next.node? names := by
  rw [node?, reach?]
  cases es.lookup name <;> rfl

theorem node?_file_cons (bytes : List UInt8) : (file bytes).node? (name :: names) = none := rfl

theorem not_isListed_nil (search : Search) (tree : FileTree) : ¬IsListed search tree [] := by
  cases search with
  | sources =>
    rintro ⟨-, -, name, hlast, -⟩
    cases hlast
  | directories => exact fun h => h.ne_nil rfl

/-- A name is to be listed by itself if its entry is of the right kind. -/
theorem isListed_singleton_iff {search : Search} : IsListed search (.directory es) [name] ↔
    isIgnored name = false ∧ ∃ next, es.lookup name = some next ∧
      search.lists name next.isDirectory = true := by
  have hshown : Shown [name] ↔ isIgnored name = false := by
    rw [shown_cons, and_iff_left (by simp [Shown])]
  have hnode : (directory es).node? [name] = (es.lookup name).map node := by
    rw [node?, reach?_singleton]
  cases search with
  | sources =>
    constructor
    · rintro ⟨hnames, ⟨bytes, hfile⟩, last, hlast, hsuffix⟩
      obtain rfl := Option.some.inj hlast
      obtain ⟨next, hlookup, hnext⟩ := Option.map_eq_some_iff.mp (hnode ▸ hfile)
      refine ⟨hshown.mp hnames, next, hlookup, ?_⟩
      cases next with
      | directory es => cases hnext
      | file bytes => exact (isSourceName_iff (hnames _ List.mem_cons_self).1).mpr hsuffix
    · rintro ⟨hname, next, hlookup, hlists⟩
      cases next with
      | directory es => cases hlists
      | file bytes =>
        have hnames := hshown.mpr hname
        refine ⟨hnames, ⟨bytes, by rw [hnode, hlookup]; rfl⟩, name, rfl, ?_⟩
        exact (isSourceName_iff (hnames _ List.mem_cons_self).1).mp hlists
  | directories =>
    constructor
    · rintro ⟨hnames, hdirectory, -⟩
      obtain ⟨next, hlookup, hnext⟩ := Option.map_eq_some_iff.mp (hnode ▸ hdirectory)
      have hname := hshown.mp hnames
      refine ⟨hname, next, hlookup, ?_⟩
      cases next with
      | file bytes => cases hnext
      | directory es => simp [Search.lists, isDirectory, hname]
    · rintro ⟨hname, next, hlookup, hlists⟩
      cases next with
      | file bytes => cases hlists
      | directory es => exact ⟨hshown.mpr hname, by rw [hnode, hlookup]; rfl, List.cons_ne_nil _ _⟩

/-- More names are to be listed if they lead on from a directory. -/
theorem isListed_cons_of_ne_nil {search : Search} (hne : names ≠ []) :
    IsListed search (.directory es) (name :: names) ↔ isIgnored name = false ∧
      ∃ next, es.lookup name = some (.directory next) ∧
        IsListed search (.directory next) names := by
  obtain ⟨first, rest, rfl⟩ := List.exists_cons_of_ne_nil hne
  -- what has names below it is a directory
  have hnode : ∀ node, (directory es).node? (name :: first :: rest) = some node ↔
      ∃ next, es.lookup name = some (.directory next) ∧
        (directory next).node? (first :: rest) = some node := by
    intro node
    rw [node?_cons]
    cases es.lookup name with
    | none => simp
    | some next => cases next <;> simp [node?_file_cons]
  cases search with
  | sources =>
    constructor
    · rintro ⟨hnames, ⟨bytes, hfile⟩, hsuffix⟩
      obtain ⟨hname, hrest⟩ := shown_cons.mp hnames
      obtain ⟨next, hlookup, hnext⟩ := (hnode _).mp hfile
      exact ⟨hname, next, hlookup, hrest, ⟨bytes, hnext⟩, hsuffix⟩
    · rintro ⟨hname, next, hlookup, hrest, ⟨bytes, hnext⟩, hsuffix⟩
      exact ⟨shown_cons.mpr ⟨hname, hrest⟩, ⟨bytes, (hnode _).mpr ⟨next, hlookup, hnext⟩⟩, hsuffix⟩
  | directories =>
    constructor
    · rintro ⟨hnames, hdirectory, -⟩
      obtain ⟨hname, hrest⟩ := shown_cons.mp hnames
      obtain ⟨next, hlookup, hnext⟩ := (hnode _).mp hdirectory
      exact ⟨hname, next, hlookup, hrest, hnext, List.cons_ne_nil _ _⟩
    · rintro ⟨hname, next, hlookup, hrest, hnext, -⟩
      exact ⟨shown_cons.mpr ⟨hname, hrest⟩, (hnode _).mpr ⟨next, hlookup, hnext⟩,
        List.cons_ne_nil _ _⟩

theorem isListed_cons_iff {search : Search} : IsListed search (.directory es) (name :: names) ↔
    isIgnored name = false ∧ ∃ next, es.lookup name = some next ∧
      (names = [] ∧ search.lists name next.isDirectory = true ∨
        ∃ inner, next = .directory inner ∧ IsListed search (.directory inner) names) := by
  by_cases hnames : names = []
  · subst hnames
    simp [isListed_singleton_iff, not_isListed_nil]
  · rw [isListed_cons_of_ne_nil hnames]
    simp [hnames]

/-- What holds an entry is a directory. -/
theorem node?_of_concat {above : List Text} (h : (tree.node? (above ++ [name])).isSome = true) :
    tree.node? above = some .directory := by
  rw [node?, Option.isSome_map, reach?_append] at h
  rw [node?]
  cases habove : tree.reach? above with
  | none =>
    rw [habove] at h
    cases h
  | some found =>
    rw [habove] at h
    cases found with
    | file bytes => cases h
    | directory es => rfl

end FileTree

namespace FileSystem

open FileTree

variable {fs : FileSystem} {search : Search} {levels : Nat} {root path : Path} {name : Text}
  {names : List Text} {paths : List Path} {es : Catalog FileTree}

theorem join_child (left right : Path) (name : Text) :
    left.join (right.child name) = (left.join right).child name := by
  rw [Path.join, Path.join]
  by_cases h : right.anchor = .here
  · rw [if_pos h, if_pos (show (right.child name).anchor = .here from h)]
    simp [Path.child]
  · rw [if_neg h, if_neg (show (right.child name).anchor ≠ .here from h)]

/-- Under a name in a directory is its entry of that name, unless the request is refused with an
error. -/
theorem find_child (hfind : fs.find .look path = .ok (.directory es)) (hnull : '\x00' ∉ name)
    (hname : name ≠ Path.parentName) :
    (∃ refusal, refusal.Blocks ∧ fs.find .look (path.child name) = .error refusal) ∨
      fs.find .look (path.child name) = (es.lookup name).elim (.error .notFound) .ok := by
  obtain ⟨hpath, -, -, hfollow⟩ := find_eq_ok_iff.mp hfind
  obtain ⟨above, hrest⟩ := exists_follow_append hfollow
  have hchild : ¬(path.child name).hasNull = true := by
    rw [Path.hasNull] at hpath ⊢
    simp_all [Path.child]
  rw [find, if_neg hchild]
  split
  · exact .inl ⟨_, .inl rfl, rfl⟩
  · split
    · exact .inl ⟨_, .inr rfl, rfl⟩
    · have hparts : (fs.directory.join (path.child name)).parts =
          (fs.directory.join path).parts ++ [name] := by
        rw [join_child]
        rfl
      rw [hparts, hrest]
      cases above <;>
      · rw [follow, if_neg hname]
        split
        · exact .inl ⟨_, .inl rfl, rfl⟩
        · right
          cases es.lookup name <;> rfl

theorem eq_lookup_of_look {found : Option FileTree}
    (hfind : fs.find .look path = .ok (.directory es)) (hnull : '\x00' ∉ name)
    (hname : name ≠ Path.parentName) (h : fs.look (path.child name) = .ok found) :
    found = es.lookup name := by
  rcases find_child hfind hnull hname with ⟨refusal, hblocks, hrefused⟩ | hfound
  · cases h.symm.trans (look_eq_error_iff.mpr ⟨refusal, hblocks, hrefused, rfl⟩)
  · rw [look, hfound] at h
    cases hlookup : es.lookup name with
    | none =>
      rw [hlookup] at h
      exact (Except.ok.inj h).symm
    | some next =>
      rw [hlookup] at h
      exact (Except.ok.inj h).symm

theorem holds_iff {listed : List Text} (hfind : fs.find .look path = .ok (.directory es))
    (h : fs.names path = .ok listed) : fs.Holds path name ↔ ∃ next, es.lookup name = some next := by
  have hlisted : listed = (Catalog.sorted es).names := by
    obtain ⟨isDirectory, hkind, hlist⟩ := bind_eq_ok_iff.mp h
    obtain rfl := Except.ok.inj (hkind.symm.trans (hasDirectory_eq_true_iff.mpr ⟨es, hfind⟩))
    change fs.list path = .ok listed at hlist
    rw [list_of_find hfind] at hlist
    split at hlist
    · exact (Except.ok.inj hlist).symm
    · cases hlist
  rw [← Catalog.mem_names_sorted, ← hlisted, Holds, h]
  simp

theorem Finds.shown (h : fs.Finds search path (name :: names)) :
    fs.Holds path name ∧ isIgnored name = false := by
  cases h with
  | here hholds hlooks _ hlists => exact ⟨hholds, Search.shown_of_lists hlooks hlists⟩
  | inside hholds hshown => exact ⟨hholds, hshown⟩

theorem ne_parentName_of_shown (h : isIgnored name = false) : name ≠ Path.parentName := by
  rintro rfl
  exact absurd h (by decide)

/-- In a tree whose names have no null character, a walk that does not fail finds what it is to
list. -/
theorem finds_iff (hfind : fs.find .look path = .ok (.directory es))
    (hnamed : (FileTree.directory es).Named) (h : fs.walk search levels path = .ok paths) :
    fs.Finds search path names ↔ IsListed search (.directory es) names := by
  induction names generalizing path es levels paths with
  | nil => exact iff_of_false (fun h => h.ne_nil rfl) (not_isListed_nil search _)
  | cons name names ih =>
    obtain ⟨listed, hlisted⟩ := names_of_walk h
    have hholds := @holds_iff fs path name es listed hfind hlisted
    by_cases hentry : isIgnored name = false ∧ ∃ next, es.lookup name = some next
    · -- an entry that is shown was looked at, so the walk knows what the tree has there
      obtain ⟨hshown, next, hlookup⟩ := hentry
      have hlooks := search.looksAt_of_shown hshown
      have hheld := hholds.mpr ⟨next, hlookup⟩
      obtain ⟨hnull, hnext⟩ := hnamed.of_lookup hlookup
      obtain ⟨rest, visited, rfl, hvisited, -⟩ := visit_of_walk h hheld hlooks
      obtain ⟨isDirectory, below, hkind, hbelow, -⟩ := visit_eq_ok_iff.mp hvisited
      obtain ⟨found, hlook, rfl⟩ := map_eq_ok_iff.mp hkind
      obtain rfl : found = some next := hlookup ▸
        eq_lookup_of_look hfind hnull (ne_parentName_of_shown hshown) hlook
      rw [finds_cons_iff hheld hlooks hkind, isListed_cons_iff]
      cases next with
      | file bytes => simp [hshown, hlookup, isDirectory]
      | directory inner =>
        rw [hshown] at hbelow
        change fs.walk search rest (path.child name) = .ok below at hbelow
        rw [ih (look_eq_ok_some_iff.mp hlook) hnext hbelow]
        simp [hshown, hlookup, isDirectory]
    · refine iff_of_false (fun hfinds => hentry ?_) (fun hlisted => hentry ?_)
      · exact ⟨hfinds.shown.2, hholds.mp hfinds.shown.1⟩
      · obtain ⟨hshown, next, hlookup, -⟩ := isListed_cons_iff.mp hlisted
        exact ⟨hshown, next, hlookup⟩

/-! ### The two walks -/

theorem listing_of_find (hfind : fs.find .look root = .ok (.directory es))
    (hnamed : (FileTree.directory es).Named) (h : fs.walk search levels root = .ok paths) :
    ∃ listed, paths = listed.map root.below ∧
      Listing (IsListed search (.directory es)) listed := by
  obtain ⟨listed, hpaths, hlisted⟩ := listing_walk h
  exact ⟨listed, hpaths, hlisted.congr fun names => finds_iff hfind hnamed h⟩

/-- A walk below a directory fails exactly if there is an obstacle.  If the walks for source files
and for directories do not fail, they list the source files and the directories below it, by their
names from there on, and the directory of a file that is listed is the one where the walks began or
is listed too. -/
theorem listings_of_find (hfind : fs.find .look root = .ok (.directory es))
    (hnamed : (FileTree.directory es).Named) :
    (∀ search, (∃ fault, fs.walk search (fs.limit.levels search) root = .error fault) ↔
      ∃ fault, fs.Obstacle search (fs.limit.levels search) root fault) ∧
    (∀ files, fs.sources root = .ok files → ∃ listed, files = listed.map root.below ∧
      Listing (IsSource (.directory es)) listed) ∧
    (∀ directories, fs.directories root = .ok directories → ∃ listed,
      directories = listed.map root.below ∧ Listing (IsSubdirectory (.directory es)) listed) ∧
    ∀ files directories, fs.sources root = .ok files → fs.directories root = .ok directories →
      ∀ file ∈ files, file.parent = root ∨ file.parent ∈ directories := by
  refine ⟨fun search => walk_fails_iff, fun files => listing_of_find hfind hnamed,
    fun directories => listing_of_find hfind hnamed, ?_⟩
  intro files directories hfiles hdirectories
  obtain ⟨sources, rfl, hsources⟩ := listing_of_find hfind hnamed hfiles
  obtain ⟨below, rfl, hbelow⟩ := listing_of_find hfind hnamed hdirectories
  rw [List.forall_mem_map]
  intro names hnames
  obtain ⟨hshown, ⟨bytes, hfile⟩, name, hlast, -⟩ := (hsources.mem_iff names).mp hnames
  obtain ⟨above, rfl⟩ := List.getLast?_eq_some_iff.mp hlast
  rw [Path.parent_below_concat]
  by_cases habove : above = []
  · left
    rw [habove, Path.below_nil]
  · right
    refine List.mem_map_of_mem ((hbelow.mem_iff above).mpr ⟨?_, ?_, habove⟩)
    · exact fun part hpart => hshown part (List.mem_append_left _ hpart)
    · exact node?_of_concat (by rw [hfile]; rfl)

/-- A directory with a file that is named like a directory beside it, a directory that is named like
a source file, and two directories that are passed over. -/
def tangled : FileSystem :=
  let paths := [["a.res"], ["a", "b.resi"], ["c.res", "d.res"], [".git", "e.res"],
    ["node_modules", "f.res"]]
  .ofTree (paths.foldr (fun names => FileTree.put (.file []) (("p" :: names).map String.toList))
    .empty) ⟨.root, []⟩

theorem listings_tangled :
    ∃ es, tangled.find .look ⟨.here, ["p".toList]⟩ = .ok (.directory es) ∧
      (FileTree.directory es).Named ∧
      Listing (IsSource (.directory es)) [["a".toList, "b.resi".toList], ["a.res".toList],
        ["c.res".toList, "d.res".toList]] ∧
      Listing (IsSubdirectory (.directory es)) [["a".toList], ["c.res".toList]] := by
  obtain ⟨es, hfind⟩ : ∃ es, tangled.find .look ⟨.here, ["p".toList]⟩ = .ok (.directory es) :=
    ⟨_, rfl⟩
  have hnamed : (FileTree.directory es).Named := by
    have htree : tangled.tree.Named := by
      refine ((((named_empty.put .file ?_).put .file ?_).put .file ?_).put .file ?_).put .file ?_
        <;> decide
    exact named_of_find htree hfind
  obtain ⟨-, hsources, hdirectories, -⟩ := listings_of_find hfind hnamed
  obtain ⟨files, hfiles, hsources⟩ := hsources _ rfl
  obtain ⟨directories, hsub, hdirectories⟩ := hdirectories _ rfl
  have hinjective := List.map_injective_iff.mpr (Path.below_injective ⟨.here, ["p".toList]⟩)
  obtain rfl := hinjective (hfiles.symm.trans rfl : _ = List.map _
    [["a".toList, "b.resi".toList], ["a.res".toList], ["c.res".toList, "d.res".toList]])
  obtain rfl := hinjective (hsub.symm.trans rfl : _ = List.map _
    [["a".toList], ["c.res".toList]])
  exact ⟨es, hfind, hnamed, hsources, hdirectories⟩

/-! ### A hidden entry that cannot be looked at -/

/-- A directory with a source file, and a hidden one with the longest name there can be. -/
def crammed : FileSystem :=
  .ofTree (.put (.file []) [List.replicate 240 'a', '.' :: List.replicate 254 'h']
    (.put (.file []) [List.replicate 240 'a', "F.res".toList] .empty)) ⟨.root, []⟩

/-- The directory again and again, up to a path of almost the greatest length. -/
def roundabout : Text :=
  Text.join ['/'] ((List.replicate 15 [List.replicate 240 'a', Path.parentName]).flatten ++
    [List.replicate 240 'a'])

/-- The walk for directories is refused where it comes by the hidden file, which the walk for source
files passes over. -/
theorem directories_crammed :
    (∃ es, crammed.find .look (.ofText roundabout) = .ok (.directory es) ∧
      (FileTree.directory es).Named) ∧
      (crammed.sources (.ofText roundabout)).toOption =
        some [(Path.ofText roundabout).child "F.res".toList] ∧
      (crammed.directories (.ofText roundabout)).toOption = none := by
  have hnamed : crammed.tree.Named := by
    refine (named_empty.put .file ?_).put .file ?_ <;> decide
  have hdirectory : (crammed.hasDirectory (.ofText roundabout)).toOption = some true := by
    decide +kernel
  obtain ⟨es, hfind⟩ := hasDirectory_eq_true_iff.mp (toOption_eq_some_iff.mp hdirectory)
  refine ⟨⟨es, hfind, named_of_find hnamed hfind⟩, ?_, ?_⟩
  · decide +kernel
  · decide +kernel

end FileSystem

end ForeignBindings
