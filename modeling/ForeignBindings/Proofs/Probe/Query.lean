import ForeignBindings.Proofs.Descriptor.Unambiguous
import ForeignBindings.Proofs.Probe.Import
import Mathlib.Data.List.Basic

/-! The queries of a program.  A query walks from a root along properties, and it is read back: the
root, the identifiers that dots chain, and the keys in brackets.  So two requests of a program ask
for the same value exactly if they import from the same module and walk along the same
properties. -/

namespace ForeignBindings

open Text

theorem Text.not_mem_join {c : Char} {separator : Text} {parts : List Text} (h : c ∉ separator)
    (hparts : ∀ part ∈ parts, c ∉ part) : c ∉ join separator parts := by
  cases parts with
  | nil => exact List.not_mem_nil
  | cons part parts =>
    rw [join_cons, List.mem_append, List.mem_flatMap]
    rintro (hmem | ⟨next, hnext, hmem⟩)
    · exact hparts part List.mem_cons_self hmem
    · rcases List.mem_append.mp hmem with hmem | hmem
      · exact h hmem
      · exact hparts next (List.mem_cons_of_mem _ hnext) hmem

namespace Typescript

/-! ### Reading a query back -/

/-- A text of characters of identifiers. -/
def IsPlain (root : Text) : Prop := ∀ c ∈ root, isIdentifierChar c = true

theorem not_mem_of_isPlain {root : Text} {c : Char} (h : IsPlain root)
    (hc : isIdentifierChar c = false) : c ∉ root := by
  intro hmem
  rw [h c hmem] at hc
  cases hc

/-- A root with the identifiers that dots chain to it. -/
def chain (root : Text) (segments : List Text) : Text :=
  join ['.'] (root :: segments.takeWhile isIdentifier)

theorem not_mem_chained {root : Text} (hroot : IsPlain root) (segments : List Text) {c : Char}
    (hc : isIdentifierChar c = false) (hne : c ≠ '\n') :
    ∀ part ∈ root :: segments.takeWhile isIdentifier, c ∉ part := by
  rw [List.forall_mem_cons]
  refine ⟨not_mem_of_isPlain hroot hc, fun segment hsegment => ?_⟩
  have hidentifier := List.all_eq_true.mp List.all_takeWhile segment hsegment
  exact not_mem_of_isIdentifier hidentifier hc hne

theorem chain_unique {root root' : Text} {segments segments' : List Text} (hroot : IsPlain root)
    (hroot' : IsPlain root') (h : chain root segments = chain root' segments') :
    root = root' ∧ segments.takeWhile isIdentifier = segments'.takeWhile isIdentifier := by
  have hsplit {root : Text} (hroot : IsPlain root) (segments : List Text) :
      (chain root segments).splitOn '.' = root :: segments.takeWhile isIdentifier :=
    List.splitOn_intercalate '.'
      (not_mem_chained hroot segments (by decide) (by decide)) (List.cons_ne_nil _ _)
  have hparts := congrArg (List.splitOn '.') h
  rw [hsplit hroot, hsplit hroot'] at hparts
  exact List.cons.inj hparts

def keyText (key : Text) : Text := '\x5b' :: (Json.quote key ++ ['\x5d'])

theorem keys_unique {keys keys' : List Text} (h : keys.flatMap keyText = keys'.flatMap keyText) :
    keys = keys' := by
  have hkey : ∀ key key' s t, keyText key ++ s = keyText key' ++ t → key = key' ∧ s = t := by
    intro key key' s t h
    have hquote : Json.quote key ++ '\x5d' :: s = Json.quote key' ++ '\x5d' :: t := by
      simpa [keyText] using h
    obtain ⟨rfl, hrest⟩ := quote_unique hquote
    exact ⟨rfl, (List.cons.inj hrest).2⟩
  have hbegins : ∀ key, (keyText key).Begins (· ≠ ';') := fun key => begins_cons (by decide)
  -- any character that begins no key can stand for the end of the keys
  have hends := congrArg (· ++ [';']) h
  have hunique := @flatMap_unique _ _ keyText id ';' keys keys' [] []
    (fun key _ key' _ => hkey key key') (fun key _ => hbegins key) (fun key _ => hbegins key) hends
  simpa using hunique.1

theorem typeQuery_of_dotted {root : Text} {segments : List Text}
    (h : segments.dropWhile isIdentifier = []) :
    typeQuery root segments = "typeof ".toList ++ chain root segments :=
  if_pos h

theorem typeQuery_of_keys {root : Text} {segments : List Text}
    (h : segments.dropWhile isIdentifier ≠ []) :
    typeQuery root segments = '(' :: ("typeof ".toList ++ chain root segments ++
      ')' :: (segments.dropWhile isIdentifier).flatMap keyText) := by
  rw [typeQuery, if_neg h, chain, ← List.cons_append, List.append_assoc]
  rfl

/-- A query tells its root and its properties. -/
theorem typeQuery_eq_iff {root root' : Text} {segments segments' : List Text}
    (hroot : IsPlain root) (hroot' : IsPlain root') :
    typeQuery root segments = typeQuery root' segments' ↔ root = root' ∧ segments = segments' := by
  constructor
  · intro h
    have hparts : chain root segments = chain root' segments' ∧
        segments.dropWhile isIdentifier = segments'.dropWhile isIdentifier := by
      by_cases hkeys : segments.dropWhile isIdentifier = [] <;>
        by_cases hkeys' : segments'.dropWhile isIdentifier = []
      · rw [typeQuery_of_dotted hkeys, typeQuery_of_dotted hkeys'] at h
        exact ⟨List.append_cancel_left h, hkeys.trans hkeys'.symm⟩
      · rw [typeQuery_of_dotted hkeys, typeQuery_of_keys hkeys'] at h
        exact absurd (List.cons.inj h).1 (by decide)
      · rw [typeQuery_of_keys hkeys, typeQuery_of_dotted hkeys'] at h
        exact absurd (List.cons.inj h).1 (by decide)
      · rw [typeQuery_of_keys hkeys, typeQuery_of_keys hkeys', List.append_assoc,
          List.append_assoc] at h
        have hclose {root : Text} (hroot : IsPlain root) (segments : List Text) :
            ')' ∉ chain root segments :=
          not_mem_join (by decide) (not_mem_chained hroot segments (by decide) (by decide))
        obtain ⟨hchain, hrest⟩ := cut_unique (hclose hroot segments) (hclose hroot' segments')
          (List.append_cancel_left (List.cons.inj h).2)
        exact ⟨hchain, keys_unique hrest⟩
    obtain ⟨heq, htake⟩ := chain_unique hroot hroot' hparts.1
    rw [← segments.takeWhile_append_dropWhile (p := isIdentifier), htake, hparts.2,
      List.takeWhile_append_dropWhile]
    exact ⟨heq, rfl⟩
  · rintro ⟨rfl, rfl⟩
    rfl

/-- The query starts from the name: no character of an identifier stands after it. -/
def StartsFrom (root query : Text) : Prop :=
  ∃ rest, (query = "typeof ".toList ++ root ++ rest ∨ query = "(typeof ".toList ++ root ++ rest) ∧
    ∀ c ∈ rest.head?, isIdentifierChar c = false

theorem startsFrom_typeQuery (root : Text) (segments : List Text) :
    StartsFrom root (typeQuery root segments) := by
  have hdotted (more : Text) (hmore : ∀ c ∈ more.head?, isIdentifierChar c = false) :
      ∀ c ∈ ((segments.takeWhile isIdentifier).flatMap (['.'] ++ ·) ++ more).head?,
        isIdentifierChar c = false := by
    cases segments.takeWhile isIdentifier with
    | nil => exact hmore
    | cons segment rest =>
      intro c hc
      obtain rfl := Option.some.inj hc
      decide
  by_cases hkeys : segments.dropWhile isIdentifier = []
  · rw [typeQuery_of_dotted hkeys, chain, join_cons]
    refine ⟨_, .inl (List.append_assoc _ _ _).symm, ?_⟩
    rw [← List.append_nil (List.flatMap _ _)]
    exact hdotted [] (by simp)
  · rw [typeQuery_of_keys hkeys, chain, join_cons]
    refine ⟨_, .inr ?_, hdotted (')' :: (segments.dropWhile isIdentifier).flatMap keyText) ?_⟩
    · simp
    · intro c hc
      obtain rfl := Option.some.inj hc
      decide

end Typescript

namespace Program

open Typescript

/-! ### Roots -/

theorem isPlain_importAlias (k : Nat) : IsPlain (importAlias k) := by
  intro c hc
  rcases List.mem_append.mp hc with hc | hc
  · have hname : "__mod".toList.all Typescript.isIdentifierChar = true := by decide
    exact List.all_eq_true.mp hname c hc
  · have hdigit := Nat.isDigit_of_mem_toDigits (by decide) (by decide) hc
    simp [Typescript.isIdentifierChar, Char.isAlphanum, hdigit]

theorem isPlain_rootOf (paths : List Text) (r : Request) : IsPlain (rootOf paths r) := by
  rw [rootOf]
  split
  · exact isPlain_importAlias _
  · have hglobal : globalRoot.all Typescript.isIdentifierChar = true := by decide
    exact List.all_eq_true.mp hglobal

theorem importAlias_injective {k l : Nat} (h : importAlias k = importAlias l) : k = l :=
  ofNat_injective (List.append_cancel_left h)

theorem importAlias_ne_globalRoot (k : Nat) : importAlias k ≠ globalRoot := by
  intro h
  exact absurd (List.cons.inj h).1 (by decide)

section

variable {paths : List Text} {r s : Request}

theorem rootOf_eq_globalRoot_iff : rootOf paths r = globalRoot ↔ r.target.importPath = none := by
  rw [rootOf]
  split
  · rename_i path hpath
    simp [hpath, importAlias_ne_globalRoot]
  · rename_i hpath
    simp [hpath]

theorem rootOf_eq_importAlias_iff (hnodup : paths.Nodup)
    (hmem : ∀ path, r.target.importPath = some path → path ∈ paths) {k : Nat} :
    rootOf paths r = importAlias k ↔ ∃ path, r.target.importPath = some path ∧
      paths[k]? = some path := by
  rw [rootOf]
  split
  · rename_i path hpath
    have hnumber := List.idxOf_lt_length_of_mem (hmem path hpath)
    constructor
    · intro h
      obtain rfl := importAlias_injective h
      exact ⟨path, hpath, by rw [List.getElem?_eq_getElem hnumber, List.getElem_idxOf hnumber]⟩
    · rintro ⟨path', hpath', hk⟩
      obtain rfl := Option.some.inj (hpath.symm.trans hpath')
      obtain ⟨hlt, rfl⟩ := List.getElem?_eq_some_iff.mp hk
      rw [hnodup.idxOf_getElem k hlt]
  · rename_i hpath
    simp [hpath, (importAlias_ne_globalRoot k).symm]

theorem rootOf_eq_iff (hr : ∀ path, r.target.importPath = some path → path ∈ paths) :
    rootOf paths r = rootOf paths s ↔ r.target.importPath = s.target.importPath := by
  constructor
  · intro h
    cases hpath : r.target.importPath with
    | none =>
      rw [rootOf_eq_globalRoot_iff.mpr hpath] at h
      exact (rootOf_eq_globalRoot_iff.mp h.symm).symm
    | some path =>
      cases hpath' : s.target.importPath with
      | none =>
        rw [rootOf_eq_globalRoot_iff.mpr hpath', rootOf_eq_globalRoot_iff, hpath] at h
        cases h
      | some path' =>
        simp only [rootOf, hpath, hpath'] at h
        rw [(List.idxOf_inj (hr path hpath)).mp (importAlias_injective h)]
  · intro h
    rw [rootOf, rootOf, h]

end

/-! ### Queries -/

/-- The line for the actual type of the request of the given number holds the query. -/
def Queries (program : Program) (i : Nat) (query : Text) : Prop :=
  ∃ entry, program.entries[i]? = some entry ∧ 0 < entry.actualLine ∧
    program.lines[entry.actualLine - 1]? = some (actualLine (ofNat i) query)

theorem actualLine_injective {number query query' : Text}
    (h : actualLine number query = actualLine number query') : query = query' :=
  List.append_cancel_left (List.append_cancel_right h)

theorem queries_iff {requests : List Request} {i : Nat} {r : Request} (h : requests[i]? = some r)
    {query : Text} : (ofRequests requests).Queries i query ↔
      query = typeQuery (rootOf (importPaths requests) r) r.target.segments := by
  obtain ⟨before, after, hlines, hentry⟩ := ofRequests_at h
  have hline : (ofRequests requests).lines[before.length + (r.expected.warnings.length + 1)]? =
      some (actualLine (ofNat i)
        (typeQuery (rootOf (importPaths requests) r) r.target.segments)) := by
    rw [hlines, List.getElem?_append_right (Nat.le_add_right _ _), Nat.add_sub_cancel_left,
      requestLines, List.append_assoc, List.getElem?_append_right (by simp), List.length_map,
      Nat.add_sub_cancel_left]
    rfl
  constructor
  · rintro ⟨entry, hentry', -, hquery⟩
    obtain rfl := Option.some.inj (hentry.symm.trans hentry')
    exact (actualLine_injective (Option.some.inj (hline.symm.trans hquery))).symm
  · rintro rfl
    exact ⟨_, hentry, Nat.succ_pos _, hline⟩

/-- The lines of a program that import modules are its first, one for each module in the order of
first uses; the query of a request starts from the name of its module, or from the global object if
it has none; and two requests have the same query exactly if they import from the same module and
walk along the same properties. -/
theorem queries_name_values (requests : List Request) :
    let program := ofRequests requests
    ∃ paths, FirstUses requests paths ∧
      (∃ rest, program.lines = paths.mapIdx importStatement ++ rest ∧
        ∀ line ∈ rest, ¬"import ".toList <+: line) ∧
      (∀ k path, paths[k]? = some path →
        program.physicalLine? (k + 1) = some (importStatement k path)) ∧
      (∀ i r, requests[i]? = some r → ∃ query root,
        program.Queries i query ∧ StartsFrom root query ∧
        (root = globalRoot ↔ r.target.importPath = none) ∧
        ∀ k, root = importAlias k ↔
          ∃ path, r.target.importPath = some path ∧ paths[k]? = some path) ∧
      ∀ i j (r s : Request) query query', requests[i]? = some r → requests[j]? = some s →
        program.Queries i query → program.Queries j query' →
        (query = query' ↔ r.target.importPath = s.target.importPath ∧
          r.target.segments = s.target.segments) := by
  intro program
  have huses := firstUses_importPaths requests
  have hmem : ∀ (i : Nat) (r : Request), requests[i]? = some r →
      ∀ path, r.target.importPath = some path → path ∈ importPaths requests := by
    intro i r hr path hpath
    exact mem_importPaths.mpr ⟨r, List.mem_of_getElem? hr, hpath⟩
  have hlines := lines_ofRequests requests
  rw [importLines_eq_mapIdx] at hlines
  refine ⟨importPaths requests, huses, hlines, ?_, ?_, ?_⟩
  · intro k path hk
    obtain ⟨hlt, rfl⟩ := List.getElem?_eq_some_iff.mp hk
    have hline := physicalLine?_importLine (List.getElem_mem hlt)
    rwa [importLine, huses.nodup.idxOf_getElem k hlt] at hline
  · intro i r hr
    refine ⟨_, _, (queries_iff hr).mpr rfl, startsFrom_typeQuery _ _, rootOf_eq_globalRoot_iff,
      fun k => ?_⟩
    exact rootOf_eq_importAlias_iff huses.nodup (hmem i r hr)
  · intro i j r s query query' hr hs hquery hquery'
    rw [(queries_iff hr).mp hquery, (queries_iff hs).mp hquery',
      typeQuery_eq_iff (isPlain_rootOf _ r) (isPlain_rootOf _ s), rootOf_eq_iff (hmem i r hr)]

end Program

end ForeignBindings
