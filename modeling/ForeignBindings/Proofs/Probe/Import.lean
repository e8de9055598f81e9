import ForeignBindings.Proofs.Probe.LineMap

/-! The modules of a program.  Each module that a request imports from is imported once, in the
order of first uses, and its line stands before those of all requests. -/

namespace ForeignBindings

namespace Text

/-- Texts without their repetitions differ, and stand in the order of first occurrences: before the
first occurrence of a text there is none of a later one. -/
theorem pairwise_eraseDups (texts : List Text) : texts.eraseDups.Pairwise fun a b =>
    a ≠ b ∧ ∃ front rest, texts = front ++ a :: rest ∧ b ∉ front := by
  induction hn : texts.length using Nat.strongRecOn generalizing texts with
  | ind n ih =>
    cases texts with
    | nil => exact .nil
    | cons a texts =>
      have hlength : (texts.filter fun b => !b == a).length < n := by
        have hle := List.length_filter_le (fun b => !b == a) texts
        rw [List.length_cons] at hn
        omega
      have hother : ∀ b ∈ (texts.filter fun b => !b == a).eraseDups, (!b == a) = true :=
        fun b hb => (List.mem_filter.mp (List.mem_eraseDups.mp hb)).2
      have hne : ∀ b ∈ (texts.filter fun b => !b == a).eraseDups, a ≠ b := by
        rintro b hb rfl
        simpa using hother a hb
      rw [List.eraseDups_cons]
      constructor
      · intro b hb
        exact ⟨hne b hb, [], texts, rfl, List.not_mem_nil⟩
      · refine (ih _ hlength _ rfl).imp_of_mem fun {b c} _ hc hbefore => ⟨hbefore.1, ?_⟩
        obtain ⟨front, rest, hsplit, hnot⟩ := hbefore.2
        obtain ⟨texts₁, texts₂, rfl, rfl, hfilter⟩ := List.filter_eq_append_iff.mp hsplit
        obtain ⟨between, rest', rfl, hbetween, -, -⟩ := List.filter_eq_cons_iff.mp hfilter
        refine ⟨a :: (texts₁ ++ between), rest', by simp, ?_⟩
        rw [List.mem_cons, List.mem_append, not_or, not_or]
        refine ⟨(hne c hc).symm, fun hmem => ?_, fun hmem => hbetween c hmem (hother c hc)⟩
        exact hnot (List.mem_filter.mpr ⟨hmem, hother c hc⟩)

end Text

namespace Program

/-- A request imports from the one module, and none before it from the other. -/
def UsedBefore (requests : List Request) (path later : Text) : Prop :=
  ∃ front r rest, requests = front ++ r :: rest ∧ r.target.importPath = some path ∧
    ∀ r' ∈ front, r'.target.importPath ≠ some later

/-- The paths are the modules that requests import from, each once, in the order in which the
requests first use them. -/
structure FirstUses (requests : List Request) (paths : List Text) : Prop where
  mem_iff : ∀ path, path ∈ paths ↔ ∃ r ∈ requests, r.target.importPath = some path
  nodup : paths.Nodup
  ordered : paths.Pairwise (UsedBefore requests)

theorem mem_importPaths {requests : List Request} {path : Text} :
    path ∈ importPaths requests ↔ ∃ r ∈ requests, r.target.importPath = some path := by
  rw [importPaths, List.mem_eraseDups, List.mem_filterMap]

theorem firstUses_importPaths (requests : List Request) :
    FirstUses requests (importPaths requests) := by
  have hpairwise : (importPaths requests).Pairwise _ := Text.pairwise_eraseDups _
  refine ⟨fun path => mem_importPaths, hpairwise.imp And.left, ?_⟩
  refine hpairwise.imp fun {path later} hbefore => ?_
  obtain ⟨front, rest, hsplit, hnot⟩ := hbefore.2
  obtain ⟨requests₁, requests₂, rfl, rfl, hused⟩ := List.filterMap_eq_append_iff.mp hsplit
  obtain ⟨between, r, rest', rfl, hbetween, hpath, -⟩ := List.filterMap_eq_cons_iff.mp hused
  refine ⟨requests₁ ++ between, r, rest', by simp, hpath, ?_⟩
  intro r' hr' hlater
  rcases List.mem_append.mp hr' with hr' | hr'
  · exact hnot (List.mem_filterMap.mpr ⟨r', hr', hlater⟩)
  · rw [hbetween r' hr'] at hlater
    cases hlater

/-! ### The lines that import modules -/

/-- The line that imports the module of the given number. -/
def importStatement (number : Nat) (path : Text) : Text :=
  "import * as ".toList ++ importAlias number ++ " from ".toList ++ Json.quote path ++ [';']

/-- The number of the line, from one, that imports a module. -/
def importLine (requests : List Request) (path : Text) : Nat :=
  (importPaths requests).idxOf path + 1

theorem importLines_getElem? (first k : Nat) (paths : List Text) :
    (importLines first paths)[k]? = paths[k]?.map (importStatement (first + k)) := by
  induction paths generalizing first k with
  | nil => simp [importLines]
  | cons path paths ih =>
    cases k with
    | zero => rfl
    | succ k => rw [importLines, List.getElem?_cons_succ, List.getElem?_cons_succ, ih,
        Nat.add_right_comm, Nat.add_assoc]

theorem length_importLines (first : Nat) (paths : List Text) :
    (importLines first paths).length = paths.length := by
  induction paths generalizing first with
  | nil => rfl
  | cons path paths ih => rw [importLines, List.length_cons, List.length_cons, ih]

theorem importLines_eq_mapIdx (paths : List Text) :
    importLines 0 paths = paths.mapIdx importStatement := by
  apply List.ext_getElem?
  intro k
  rw [importLines_getElem?, List.getElem?_mapIdx, Nat.zero_add]

theorem not_import_requestLines (root : Text) (index : Nat) (r : Request) :
    ∀ line ∈ requestLines root index r, ¬"import ".toList <+: line := by
  intro line hline
  simp only [requestLines, List.mem_append, List.mem_map, List.mem_cons, List.not_mem_nil,
    or_false] at hline
  rcases hline with ⟨warning, -, rfl⟩ | rfl | rfl | rfl | rfl
  all_goals exact fun h => absurd (List.cons_prefix_cons.mp h).1 (by decide)

theorem not_import_layout (paths : List Text) (index above : Nat) (requests : List Request) :
    ∀ line ∈ (layout paths index above requests).lines, ¬"import ".toList <+: line := by
  induction requests generalizing index above with
  | nil => simp [layout]
  | cons r rest ih =>
    rw [layout, List.forall_mem_append]
    exact ⟨not_import_requestLines _ _ _, ih _ _⟩

/-- A program begins with the lines that import modules, and has no others. -/
theorem lines_ofRequests (requests : List Request) :
    ∃ rest, (ofRequests requests).lines = importLines 0 (importPaths requests) ++ rest ∧
      ∀ line ∈ rest, ¬"import ".toList <+: line := by
  simp only [ofRequests, List.append_assoc]
  refine ⟨_, rfl, ?_⟩
  rw [List.singleton_append, List.forall_mem_cons, List.forall_mem_append]
  refine ⟨by decide, not_import_layout _ _ _ _, ?_⟩
  rw [List.forall_mem_singleton]
  decide

variable {requests : List Request} {path : Text}

theorem physicalLine?_importLine (h : path ∈ importPaths requests) :
    (ofRequests requests).physicalLine? (importLine requests path) =
      some (importStatement ((importPaths requests).idxOf path) path) := by
  obtain ⟨rest, hlines, -⟩ := lines_ofRequests requests
  apply physicalLine?_of_front hlines (oneLine_importLines 0 _)
  have hnumber := List.idxOf_lt_length_of_mem h
  rw [importLines_getElem?, Nat.zero_add, List.getElem?_eq_getElem hnumber,
    List.getElem_idxOf hnumber, Option.map_some]

end Program

end ForeignBindings
