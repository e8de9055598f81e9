import ForeignBindings.Proofs.Probe.LineMap

/-! The lines of requests.  A line that speaks about a request is told from the other lines of a
program by how it begins.  So unless a declaration leaks a line feed, the physical lines that speak
about requests are exactly the lines of the entries. -/

namespace ForeignBindings.Program

open Text

/-- The line that speaks about the request of the given number in a role. -/
def requestLine (root : Text) (i : Nat) (r : Request) : Role → Text
  | .expected => expectedLine (ofNat i) r.expectedType
  | .actual => actualLine (ofNat i) (Typescript.typeQuery root r.target.segments)
  | .probe => probeLine (ofNat i)

/-- The physical line of the given number is the expected, the actual or the probe line of one of
the requests. -/
def IsRequestLine (requests : List Request) (line : Nat) : Prop :=
  ∃ i r role, requests[i]? = some r ∧ (ofRequests requests).physicalLine? line =
    some (requestLine (rootOf (importPaths requests) r) i r role)

/-- An entry of the program for the requests has the line. -/
def IsEntryLine (requests : List Request) (line : Nat) : Prop :=
  ∃ entry ∈ (ofRequests requests).entries, ∃ role, entry.line role = line

/-! ### How lines begin -/

/-- How the lines in a role begin. -/
def opening : Role → Text
  | .expected => "type __expected_".toList
  | .actual => "type __actual_".toList
  | .probe => "const __check_".toList

/-- The line begins as one about a request. -/
def Marked (line : Text) : Prop := ∃ role, opening role <+: line

theorem prefix_foldl_append (front : Text) (parts : List Text) :
    front <+: parts.foldl (· ++ ·) front := by
  induction parts generalizing front with
  | nil => exact List.prefix_rfl
  | cons part parts ih => exact (List.prefix_append front part).trans (ih (front ++ part))

theorem marked_requestLine (root : Text) (i : Nat) (r : Request) (role : Role) :
    Marked (requestLine root i r role) := by
  refine ⟨role, ?_⟩
  cases role with
  | expected => exact prefix_foldl_append _ [ofNat i, " = ".toList, r.expectedType, [';']]
  | actual =>
    exact prefix_foldl_append _
      [ofNat i, " = ".toList, Typescript.typeQuery root r.target.segments, [';']]
  | probe =>
    exact prefix_foldl_append _
      [ofNat i, ": __expected_".toList, ofNat i, " = __value_".toList, ofNat i, [';']]

/-- What begins with another character is no such line. -/
theorem not_marked_cons {c : Char} (h : c ≠ 't' ∧ c ≠ 'c') (line : Text) : ¬Marked (c :: line) := by
  rintro ⟨role, hprefix⟩
  cases role with
  | expected | actual => exact h.1 (List.cons_prefix_cons.mp hprefix).1.symm
  | probe => exact h.2 (List.cons_prefix_cons.mp hprefix).1.symm

theorem not_marked_importLines (number : Nat) (paths : List Text) :
    ∀ line ∈ importLines number paths, ¬Marked line := by
  induction paths generalizing number with
  | nil => simp [importLines]
  | cons path paths ih =>
    rw [importLines, List.forall_mem_cons]
    exact ⟨not_marked_cons (by decide) _, ih (number + 1)⟩

theorem not_marked_head (requests : List Request) :
    ∀ line ∈ importLines 0 (importPaths requests) ++
      ["type __Global = typeof ".toList ++ globalRoot ++ [';']], ¬Marked line := by
  rw [List.forall_mem_append, List.forall_mem_singleton]
  refine ⟨not_marked_importLines 0 _, ?_⟩
  rintro ⟨role, hprefix⟩
  cases role <;> exact absurd hprefix (by decide)

/-! ### The lines of entries -/

/-- Of the lines of a request, only those of its entry begin as such lines. -/
theorem entry_of_marked {root line : Text} {index above k : Nat} {r : Request}
    (hline : (requestLines root index r)[k]? = some line) (hmarked : Marked line) :
    ∃ role, (requestEntry index above r).line role = above + k + 1 := by
  rw [requestLines] at hline
  by_cases hwarning : k < (r.expected.warnings.map warningLine).length
  · rw [List.getElem?_append_left hwarning] at hline
    obtain ⟨warning, -, rfl⟩ := List.mem_map.mp (List.mem_of_getElem? hline)
    exact absurd hmarked (not_marked_cons (by decide) _)
  · obtain ⟨j, rfl⟩ := Nat.exists_eq_add_of_le (Nat.le_of_not_lt hwarning)
    rw [List.getElem?_append_right (Nat.le_add_right ..), Nat.add_sub_cancel_left] at hline
    rw [List.length_map]
    rcases j with _ | _ | _ | _ | j
    · exact ⟨.expected, by simp only [requestEntry, ProbeEntry.line]; omega⟩
    · exact ⟨.actual, by simp only [requestEntry, ProbeEntry.line]; omega⟩
    · have hvalue : valueLine (ofNat index) = line := Option.some.inj hline
      rw [← hvalue] at hmarked
      exact absurd hmarked (not_marked_cons (by decide) _)
    · exact ⟨.probe, by simp only [requestEntry, ProbeEntry.line]; omega⟩
    · cases hline

theorem entry_of_marked_layout {paths : List Text} {index above k : Nat} {requests : List Request}
    {line : Text} (hline : (layout paths index above requests).lines[k]? = some line)
    (hmarked : Marked line) :
    ∃ entry ∈ (layout paths index above requests).entries, ∃ role,
      entry.line role = above + k + 1 := by
  induction requests generalizing index above k with
  | nil => cases hline
  | cons r rest ih =>
    rw [layout] at hline
    by_cases hown : k < (requestLines (rootOf paths r) index r).length
    · rw [List.getElem?_append_left hown] at hline
      exact ⟨_, List.mem_cons_self, entry_of_marked hline hmarked⟩
    · obtain ⟨j, rfl⟩ := Nat.exists_eq_add_of_le (Nat.le_of_not_lt hown)
      rw [List.getElem?_append_right (Nat.le_add_right ..), Nat.add_sub_cancel_left] at hline
      obtain ⟨entry, hentry, role, heq⟩ := ih hline
      exact ⟨entry, List.mem_cons_of_mem _ hentry, role, by rw [heq, Nat.add_assoc above]⟩

theorem isEntryLine_of_marked {requests : List Request} {k : Nat} {line : Text}
    (hline : (ofRequests requests).lines[k]? = some line) (hmarked : Marked line) :
    IsEntryLine requests (k + 1) := by
  let head := importLines 0 (importPaths requests) ++
    ["type __Global = typeof ".toList ++ globalRoot ++ [';']]
  let body := layout (importPaths requests) 0 head.length requests
  change (head ++ body.lines ++ ["export \x7b\x7d;".toList])[k]? = some line at hline
  rw [List.append_assoc] at hline
  by_cases hhead : k < head.length
  · rw [List.getElem?_append_left hhead] at hline
    exact absurd hmarked (not_marked_head requests line (List.mem_of_getElem? hline))
  obtain ⟨j, rfl⟩ := Nat.exists_eq_add_of_le (Nat.le_of_not_lt hhead)
  rw [List.getElem?_append_right (Nat.le_add_right ..), Nat.add_sub_cancel_left] at hline
  by_cases hbody : j < body.lines.length
  · rw [List.getElem?_append_left hbody] at hline
    exact entry_of_marked_layout hline hmarked
  · rw [List.getElem?_append_right (Nat.le_of_not_lt hbody)] at hline
    obtain rfl := List.mem_singleton.mp (List.mem_of_getElem? hline)
    exact absurd hmarked (not_marked_cons (by decide) _)

/-- If no declaration leaks a line feed, the physical lines that speak about requests are the lines
of the entries. -/
theorem isRequestLine_iff {declarations : List Declaration}
    (h : ∀ d ∈ declarations, ¬d.request.Leaks) {line : Nat} :
    IsRequestLine (declarations.map Declaration.request) line ↔
      IsEntryLine (declarations.map Declaration.request) line := by
  let requests := declarations.map Declaration.request
  have hresolved : ∀ r ∈ requests, r.expected.descriptor.Resolved :=
    List.forall_mem_map.mpr fun d _ => TypeText.resolved_describe d.typeText
  have hlines := oneLine_ofRequests hresolved (List.forall_mem_map.mpr h)
  constructor
  · rintro ⟨i, r, role, -, hphysical⟩
    cases line with
    | zero => cases hphysical
    | succ k =>
      rw [physicalLine?_of_oneLine hlines] at hphysical
      have hmarked := marked_requestLine (rootOf (importPaths requests) r) i r role
      by_cases hk : k < (ofRequests requests).lines.length
      · rw [List.getElem?_append_left hk] at hphysical
        exact isEntryLine_of_marked hphysical hmarked
      · rw [List.getElem?_append_right (Nat.le_of_not_lt hk)] at hphysical
        have hempty := List.mem_singleton.mp (List.mem_of_getElem? hphysical)
        rw [hempty] at hmarked
        obtain ⟨role, hprefix⟩ := hmarked
        cases role <;> exact absurd (List.prefix_nil.mp hprefix) (by decide)
  · rintro ⟨entry, hmem, role, rfl⟩
    obtain ⟨i, hentry⟩ := List.mem_iff_getElem?.mp hmem
    have hi : i < requests.length := by
      rw [← length_entries_layout (importPaths requests) 0 _ requests]
      exact (List.getElem?_eq_some_iff.mp hentry).1
    have hr := List.getElem?_eq_getElem hi
    obtain ⟨before, after, -, hentry'⟩ := ofRequests_at hr
    obtain rfl := Option.some.inj (hentry'.symm.trans hentry)
    have hfaithful := faithful_of_oneLine hlines hr hentry
    refine ⟨i, _, role, hr, ?_⟩
    cases role with
    | expected => exact hfaithful.expected
    | actual => exact hfaithful.actual
    | probe => exact hfaithful.probe

end ForeignBindings.Program
