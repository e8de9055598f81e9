import ForeignBindings.Declaration.Scan
import ForeignBindings.Probe.Program
import ForeignBindings.Proofs.Descriptor.Doubts

/-! The map from the lines of a program to requests.  Lines are counted as they are laid out, so
the map is right exactly if no laid-out line holds a line feed; and only the names that stand
unquoted in a line can bring one in. -/

namespace ForeignBindings

open Text

def ProbeEntry.line (entry : ProbeEntry) : Role → Nat
  | .expected => entry.expectedLine
  | .actual => entry.actualLine
  | .probe => entry.probeLine

/-- A name that stands unquoted in the lines of the request has a line feed at its end: a key of the
claimed type, or one of the identifiers with which the path to the value begins. -/
def Request.Leaks (r : Request) : Prop :=
  (∃ key, Typescript.HasKey key r.expected.descriptor ∧ Typescript.leaks key = true) ∨
    ∃ segment ∈ r.target.segments.takeWhile Typescript.isIdentifier,
      Typescript.leaks segment = true

namespace Program

/-- The line of the given number, from one, of the text of a program as a compiler counts them. -/
def physicalLine? (program : Program) : Nat → Option Text
  | 0 => none
  | line + 1 => (program.text.splitOn '\n')[line]?

/-- The physical lines of an entry are those of the request of the given number. -/
structure Faithful (program : Program) (root : Text) (i : Nat) (r : Request)
    (entry : ProbeEntry) : Prop where
  expected : program.physicalLine? entry.expectedLine =
    some (expectedLine (ofNat i) entry.expectedType)
  actual : program.physicalLine? entry.actualLine =
    some (actualLine (ofNat i) (Typescript.typeQuery root r.target.segments))
  probe : program.physicalLine? entry.probeLine = some (probeLine (ofNat i))

/-! ### Layout -/

theorem length_requestLines (root : Text) (index : Nat) (r : Request) :
    (requestLines root index r).length = r.expected.warnings.length + 4 := by
  simp [requestLines]

theorem length_entries_layout (paths : List Text) (index above : Nat) (requests : List Request) :
    (layout paths index above requests).entries.length = requests.length := by
  induction requests generalizing index above with
  | nil => rfl
  | cons r rest ih => simp [layout, ih]

/-- A request has its lines and its entry in the layout, whatever stands before and after it. -/
theorem layout_at {paths : List Text} {index above i : Nat} {requests : List Request} {r : Request}
    (h : requests[i]? = some r) :
    ∃ front rest,
      (layout paths index above requests).lines =
        front ++ (requestLines (rootOf paths r) (index + i) r ++ rest) ∧
      (layout paths index above requests).entries[i]? =
        some (requestEntry (index + i) (above + front.length) r) := by
  induction requests generalizing index above i with
  | nil => simp at h
  | cons first requests ih =>
    cases i with
    | zero =>
      obtain rfl : first = r := by simpa using h
      exact ⟨[], _, rfl, rfl⟩
    | succ i =>
      obtain ⟨front, rest, hlines, hentry⟩ := @ih (index + 1)
        (above + (requestLines (rootOf paths first) index first).length) i (by simpa using h)
      refine ⟨requestLines (rootOf paths first) index first ++ front, rest, ?_, ?_⟩
      · rw [layout, hlines, Nat.add_right_comm, Nat.add_assoc, List.append_assoc]
      · rw [layout, List.getElem?_cons_succ, hentry, Nat.add_right_comm, Nat.add_assoc,
          List.length_append, Nat.add_assoc]

/-- The lines of each entry ascend, and all come before those of the next. -/
structure Ascending (above : Nat) (entries : List ProbeEntry) : Prop where
  pairwise : entries.Pairwise fun e f => e.probeLine < f.expectedLine
  each : ∀ e ∈ entries,
    above < e.expectedLine ∧ e.expectedLine < e.actualLine ∧ e.actualLine < e.probeLine

theorem ascending_layout (paths : List Text) (index above : Nat) (requests : List Request) :
    Ascending above (layout paths index above requests).entries := by
  induction requests generalizing index above with
  | nil => exact ⟨.nil, by simp [layout]⟩
  | cons r rest ih =>
    have hrest := ih (index + 1) (above + (requestLines (rootOf paths r) index r).length)
    have hlength := length_requestLines (rootOf paths r) index r
    constructor
    · apply List.pairwise_cons.mpr ⟨?_, hrest.pairwise⟩
      intro e he
      have hlater := (hrest.each e he).1
      simp only [requestEntry]
      omega
    · intro e he
      rcases List.mem_cons.mp he with rfl | he
      · simp only [requestEntry]
        omega
      · have hlater := hrest.each e he
        omega

/-! ### Locating -/

theorem role?_eq_some_iff {entry : ProbeEntry} {role : Role} {line : Nat}
    (hexpected : entry.expectedLine < entry.actualLine)
    (hactual : entry.actualLine < entry.probeLine) :
    entry.role? line = some role ↔ entry.line role = line := by
  rw [ProbeEntry.role?]
  by_cases h₁ : line = entry.expectedLine
  · rw [if_pos h₁]
    cases role <;> simp only [ProbeEntry.line, Option.some.injEq, reduceCtorEq, true_iff, false_iff]
      <;> omega
  · rw [if_neg h₁]
    by_cases h₂ : line = entry.actualLine
    · rw [if_pos h₂]
      cases role <;> simp only [ProbeEntry.line, Option.some.injEq, reduceCtorEq, true_iff,
        false_iff] <;> omega
    · rw [if_neg h₂]
      by_cases h₃ : line = entry.probeLine
      · rw [if_pos h₃]
        cases role <;> simp only [ProbeEntry.line, Option.some.injEq, reduceCtorEq, true_iff,
          false_iff] <;> omega
      · rw [if_neg h₃]
        cases role <;> simp only [ProbeEntry.line, reduceCtorEq, false_iff] <;> omega

/-- No two entries share a line, so a line is located in the entry and the role that it has. -/
theorem locate?_eq_some_iff {program : Program} {above : Nat}
    (hascending : Ascending above program.entries)
    (hindex : ∀ (i : Nat) (entry : ProbeEntry), program.entries[i]? = some entry → entry.index = i)
    {line i : Nat} {role : Role} :
    program.locate? line = some (i, role) ↔
      ∃ entry, program.entries[i]? = some entry ∧ entry.line role = line := by
  have hrole : ∀ entry ∈ program.entries, ∀ role line,
      entry.role? line = some role ↔ entry.line role = line := fun entry hmem role line =>
    role?_eq_some_iff (hascending.each entry hmem).2.1 (hascending.each entry hmem).2.2
  rw [locate?]
  constructor
  · intro h
    obtain ⟨entry, hmem, hsome⟩ := List.exists_of_findSome?_eq_some h
    obtain ⟨role', hrole', heq⟩ := Option.map_eq_some_iff.mp hsome
    obtain ⟨rfl, rfl⟩ := Prod.mk.inj heq
    obtain ⟨j, hj⟩ := List.mem_iff_getElem?.mp hmem
    exact ⟨entry, by rw [hindex j entry hj, hj], (hrole entry hmem _ _).mp hrole'⟩
  · rintro ⟨entry, hentry, hline⟩
    have hmem := List.mem_of_getElem? hentry
    have hbounds : ∀ e ∈ program.entries, ∀ role,
        e.expectedLine ≤ e.line role ∧ e.line role ≤ e.probeLine := by
      intro e he role
      have heach := hascending.each e he
      cases role <;> simp only [ProbeEntry.line] <;> omega
    obtain ⟨front, rest, hsplit⟩ := List.append_of_mem hmem
    have hpairwise := hascending.pairwise
    rw [hsplit, List.pairwise_append] at hpairwise
    have hfront : front.findSome? (fun e => (e.role? line).map fun role => (e.index, role)) =
        none := by
      rw [List.findSome?_eq_none_iff]
      intro e he
      have heMem : e ∈ program.entries := by simp [hsplit, he]
      rw [Option.map_eq_none_iff, Option.eq_none_iff_forall_ne_some]
      intro role' hrole'
      have hline' := (hrole e heMem role' line).mp hrole'
      have hbefore := hpairwise.2.2 e he entry List.mem_cons_self
      have hlower := (hbounds entry hmem role).1
      have hupper := (hbounds e heMem role').2
      omega
    rw [hsplit, List.findSome?_append, hfront, Option.none_or, List.findSome?_cons,
      (hrole entry hmem role line).mpr hline, hindex i entry hentry]
    rfl

theorem locate?_eq_none_of_le {program : Program} {above line : Nat}
    (hascending : Ascending above program.entries) (h : line ≤ above) :
    program.locate? line = none := by
  rw [locate?, List.findSome?_eq_none_iff]
  intro entry hentry
  have heach := hascending.each entry hentry
  rw [ProbeEntry.role?, if_neg (by omega), if_neg (by omega), if_neg (by omega), Option.map_none]

/-! ### Physical lines -/

theorem physicalLine?_of_oneLine {program : Program} (h : ∀ line ∈ program.lines, OneLine line)
    (line : Nat) : program.physicalLine? (line + 1) = (program.lines ++ [[]])[line]? := by
  rw [physicalLine?, text, splitOn_lines h]

/-- The first lines of a program are in their places if they hold no line feed, whatever the lines
after them hold. -/
theorem physicalLine?_of_front {program : Program} {front rest : List Text}
    (hlines : program.lines = front ++ rest) (h : ∀ line ∈ front, OneLine line) {line : Text}
    {k : Nat} (hline : front[k]? = some line) : program.physicalLine? (k + 1) = some line := by
  rw [physicalLine?, text, hlines, List.flatMap_append, splitOn_lines_append h,
    List.getElem?_append_left (List.getElem?_eq_some_iff.mp hline).1, hline]

theorem oneLine_of_physicalLine? {program : Program} {line : Nat} {text : Text}
    (h : program.physicalLine? line = some text) : OneLine text := by
  cases line with
  | zero => cases h
  | succ line => exact oneLine_of_mem_splitOn (List.mem_of_getElem? h)

theorem oneLine_importAlias (number : Nat) : OneLine (importAlias number) := by
  unfold importAlias
  have hname : OneLine "__mod".toList := by decide
  exact hname.append (oneLine_ofNat number)

theorem oneLine_rootOf (paths : List Text) (r : Request) : OneLine (rootOf paths r) := by
  rw [rootOf]
  split
  · exact oneLine_importAlias _
  · decide

theorem oneLine_warningLine (warning : Text) : OneLine (warningLine warning) := by
  have hmark : OneLine "// warning: ".toList := by decide
  have hwords : OneLine (join [' '] warning.words) :=
    (oneLine_join (by decide)).mpr fun word hword => oneLine_of_mem_words hword
  exact hmark.append hwords

theorem oneLine_importLines (number : Nat) (paths : List Text) :
    ∀ line ∈ importLines number paths, OneLine line := by
  induction paths generalizing number with
  | nil => simp [importLines]
  | cons path paths ih =>
    rw [importLines, List.forall_mem_cons]
    have himport : OneLine "import * as ".toList := by decide
    have hfrom : OneLine " from ".toList := by decide
    have hend : OneLine [';'] := by decide
    exact ⟨(((himport.append (oneLine_importAlias number)).append hfrom).append
      (oneLine_quote path)).append hend, ih (number + 1)⟩

theorem oneLine_request_iff {root : Text} (hroot : OneLine root) {r : Request}
    (hresolved : r.expected.descriptor.Resolved) :
    (OneLine r.expectedType ∧ OneLine (Typescript.typeQuery root r.target.segments)) ↔
      ¬r.Leaks := by
  rw [Request.expectedType, Typescript.oneLine_render hresolved,
    Typescript.oneLine_typeQuery hroot, Request.Leaks]
  simp [not_or]

theorem oneLine_of_expectedLine {number type : Text} (h : OneLine (expectedLine number type)) :
    OneLine type :=
  fun hmem => h (List.mem_append_left _ (List.mem_append_right _ hmem))

theorem oneLine_of_actualLine {number type : Text} (h : OneLine (actualLine number type)) :
    OneLine type :=
  fun hmem => h (List.mem_append_left _ (List.mem_append_right _ hmem))

theorem oneLine_valueLine {number : Text} (h : OneLine number) : OneLine (valueLine number) := by
  have hdeclare : OneLine "declare const __value_".toList := by decide
  have hactual : OneLine ": __actual_".toList := by decide
  have hend : OneLine [';'] := by decide
  exact (((hdeclare.append h).append hactual).append h).append hend

theorem oneLine_probeLine {number : Text} (h : OneLine number) : OneLine (probeLine number) := by
  have hcheck : OneLine "const __check_".toList := by decide
  have hexpected : OneLine ": __expected_".toList := by decide
  have hvalue : OneLine " = __value_".toList := by decide
  have hend : OneLine [';'] := by decide
  exact (((((hcheck.append h).append hexpected).append h).append hvalue).append h).append hend

theorem oneLine_requestLines {root : Text} (hroot : OneLine root) (index : Nat) {r : Request}
    (hresolved : r.expected.descriptor.Resolved) (h : ¬r.Leaks) :
    ∀ line ∈ requestLines root index r, OneLine line := by
  obtain ⟨hexpected, hactual⟩ := (oneLine_request_iff hroot hresolved).mpr h
  have hnumber := oneLine_ofNat index
  have hend : OneLine [';'] := by decide
  have htype : OneLine "type __expected_".toList ∧ OneLine "type __actual_".toList := by decide
  have hequals : OneLine " = ".toList := by decide
  intro line hline
  simp only [requestLines, List.mem_append, List.mem_map, List.mem_cons, List.not_mem_nil,
    or_false] at hline
  rcases hline with ⟨warning, -, rfl⟩ | rfl | rfl | rfl | rfl
  · exact oneLine_warningLine warning
  · exact (((htype.1.append hnumber).append hequals).append hexpected).append hend
  · exact (((htype.2.append hnumber).append hequals).append hactual).append hend
  · exact oneLine_valueLine hnumber
  · exact oneLine_probeLine hnumber

theorem oneLine_layout {paths : List Text} {index above : Nat} {requests : List Request}
    (hresolved : ∀ r ∈ requests, r.expected.descriptor.Resolved) (h : ∀ r ∈ requests, ¬r.Leaks) :
    ∀ line ∈ (layout paths index above requests).lines, OneLine line := by
  induction requests generalizing index above with
  | nil => simp [layout]
  | cons r rest ih =>
    rw [layout, List.forall_mem_append]
    constructor
    · exact oneLine_requestLines (oneLine_rootOf paths r) index (hresolved r List.mem_cons_self)
        (h r List.mem_cons_self)
    · exact ih (fun r hr => hresolved r (List.mem_cons_of_mem _ hr))
        fun r hr => h r (List.mem_cons_of_mem _ hr)

theorem oneLine_ofRequests {requests : List Request}
    (hresolved : ∀ r ∈ requests, r.expected.descriptor.Resolved) (h : ∀ r ∈ requests, ¬r.Leaks) :
    ∀ line ∈ (ofRequests requests).lines, OneLine line := by
  rw [ofRequests]
  simp only [List.forall_mem_append]
  refine ⟨⟨⟨oneLine_importLines _ _, ?_⟩, oneLine_layout hresolved h⟩, ?_⟩
  · rw [List.forall_mem_singleton]
    decide
  · rw [List.forall_mem_singleton]
    decide

/-! ### The map -/

theorem physicalLine?_of_append {program : Program} (h : ∀ line ∈ program.lines, OneLine line)
    {before after : List Text} (hlines : program.lines = before ++ after) {line : Text} {k : Nat}
    (hline : after[k]? = some line) :
    program.physicalLine? (before.length + k + 1) = some line := by
  have hk : k < after.length := (List.getElem?_eq_some_iff.mp hline).1
  rw [physicalLine?_of_oneLine h, hlines, List.append_assoc,
    List.getElem?_append_right (by omega), Nat.add_sub_cancel_left,
    List.getElem?_append_left hk, hline]

theorem ofRequests_at {requests : List Request} {i : Nat} {r : Request}
    (h : requests[i]? = some r) :
    ∃ before after, (ofRequests requests).lines =
        before ++ (requestLines (rootOf (importPaths requests) r) i r ++ after) ∧
      (ofRequests requests).entries[i]? = some (requestEntry i before.length r) := by
  let head := importLines 0 (importPaths requests) ++
    ["type __Global = typeof ".toList ++ globalRoot ++ [';']]
  obtain ⟨front, rest, hlines, hentry⟩ := @layout_at (importPaths requests) 0 head.length _ _ _ h
  rw [Nat.zero_add] at hlines hentry
  refine ⟨head ++ front, rest ++ ["export \x7b\x7d;".toList], ?_, ?_⟩
  · change head ++ (layout (importPaths requests) 0 head.length requests).lines ++ _ = _
    rw [hlines]
    simp only [List.append_assoc]
  · rw [List.length_append]
    exact hentry

theorem faithful_of_oneLine {requests : List Request}
    (hlines : ∀ line ∈ (ofRequests requests).lines, OneLine line) {i : Nat} {r : Request}
    (h : requests[i]? = some r) {entry : ProbeEntry}
    (hentry : (ofRequests requests).entries[i]? = some entry) :
    (ofRequests requests).Faithful (rootOf (importPaths requests) r) i r entry := by
  obtain ⟨before, after, hsplit, hentry'⟩ := ofRequests_at h
  obtain rfl : requestEntry i before.length r = entry :=
    Option.some.inj (hentry'.symm.trans hentry)
  rw [requestLines, List.append_assoc, ← List.append_assoc before] at hsplit
  have hlength : (before ++ r.expected.warnings.map warningLine).length =
      before.length + r.expected.warnings.length := by simp
  have hat {line : Text} {k : Nat} := @physicalLine?_of_append _ hlines _ _ hsplit line k
  rw [hlength] at hat
  exact ⟨@hat _ 0 rfl, @hat _ 1 rfl, @hat _ 3 rfl⟩

/-- The program for declarations has an entry for each of them, in order; a line is located in the
entry and the role that it has there, and no other line is located; and the lines of every entry are
the physical lines of its request exactly if no declaration leaks a line feed. -/
theorem lineMap_faithful_iff (declarations : List Declaration) :
    let requests := declarations.map Declaration.request
    let program := ofRequests requests
    program.entries.length = declarations.length ∧
      (∀ line i role, program.locate? line = some (i, role) ↔
        ∃ entry, program.entries[i]? = some entry ∧ entry.line role = line) ∧
      ((∀ i r entry, requests[i]? = some r → program.entries[i]? = some entry →
          entry.expectedType = r.expectedType ∧
          program.Faithful (rootOf (importPaths requests) r) i r entry) ↔
        ∀ d ∈ declarations, ¬d.request.Leaks) := by
  intro requests program
  have hresolved : ∀ r ∈ requests, r.expected.descriptor.Resolved := by
    intro r hr
    obtain ⟨d, -, rfl⟩ := List.mem_map.mp hr
    exact TypeText.resolved_describe d.typeText
  have hlength : program.entries.length = requests.length := length_entries_layout ..
  have hat : ∀ i r, requests[i]? = some r → ∃ above,
      program.entries[i]? = some (requestEntry i above r) := by
    intro i r h
    obtain ⟨before, after, -, hentry⟩ := ofRequests_at h
    exact ⟨before.length, hentry⟩
  refine ⟨hlength.trans (List.length_map _), ?_, ?_, ?_⟩
  · intro line i role
    apply locate?_eq_some_iff (ascending_layout _ _ _ _)
    intro i entry hentry
    have hi : i < requests.length := hlength ▸ (List.getElem?_eq_some_iff.mp hentry).1
    obtain ⟨above, hentry'⟩ := hat i _ (List.getElem?_eq_getElem hi)
    obtain rfl := Option.some.inj (hentry'.symm.trans hentry)
    rfl
  · intro h d hd hleaks
    obtain ⟨i, hi⟩ := List.mem_iff_getElem?.mp (List.mem_map_of_mem hd)
    obtain ⟨above, hentry⟩ := hat i _ hi
    obtain ⟨htype, hfaithful⟩ := h i _ _ hi hentry
    have hexpected := oneLine_of_physicalLine? hfaithful.expected
    have hactual := oneLine_of_physicalLine? hfaithful.actual
    have hroot := oneLine_rootOf (importPaths requests) d.request
    rw [htype] at hexpected
    apply (oneLine_request_iff hroot (TypeText.resolved_describe d.typeText)).mp ?_ hleaks
    constructor
    · exact oneLine_of_expectedLine hexpected
    · exact oneLine_of_actualLine hactual
  · intro h i r entry hr hentry
    obtain ⟨above, hentry'⟩ := hat i r hr
    have hfree : ∀ r ∈ requests, ¬r.Leaks := by
      intro r hr
      obtain ⟨d, hd, rfl⟩ := List.mem_map.mp hr
      exact h d hd
    constructor
    · obtain rfl := Option.some.inj (hentry'.symm.trans hentry)
      rfl
    · exact faithful_of_oneLine (oneLine_ofRequests hresolved hfree) hr hentry

/-- A binding with a line feed at its end puts the line feed into the line of the actual type. -/
theorem not_faithful_of_newline_in_binding :
    let requests := (scan [] "external f: int = \x22f\n\x22".toList).map Declaration.request
    let program := ofRequests requests
    program.physicalLine? 3 = some "type __actual_0 = typeof globalThis.f".toList ∧
      ¬∀ i r entry, requests[i]? = some r → program.entries[i]? = some entry →
        entry.expectedType = r.expectedType ∧
        program.Faithful (rootOf (importPaths requests) r) i r entry := by
  intro requests program
  have hentry : program.entries[0]? = some ⟨0, "number".toList, 2, 3, 5⟩ := by decide +kernel
  have hsome : requests[0]?.isSome = true := by decide +kernel
  have hline : ∀ r ∈ requests[0]?, program.physicalLine? 3 ≠ some (actualLine (ofNat 0)
      (Typescript.typeQuery (rootOf (importPaths requests) r) r.target.segments)) := by
    decide +kernel
  obtain ⟨r, hr⟩ := Option.isSome_iff_exists.mp hsome
  exact ⟨by decide +kernel, fun h => hline r hr (h 0 r _ hr hentry).2.actual⟩

end Program

end ForeignBindings
