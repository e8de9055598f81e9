import Mathlib.Data.List.Forall2
import ForeignBindings.Editor.Document
import ForeignBindings.Proofs.Declaration.Window
import ForeignBindings.Proofs.Token.Place

/-! The lines on which an editor finds a declaration.  From the line of its keyword on, it is found
on as many further lines as the text of its type has line feeds, and on one more, up to the keyword
of the next declaration.  So it is found on all of its lines exactly if at most one of the line feeds
in it stands outside that text, or the next declaration begins first. -/

namespace ForeignBindings

/-! ### Declarations in the order of their keywords -/

/-- The keyword of the first declaration stands before that of the second. -/
def Declaration.Before (d e : Declaration) : Prop :=
  d.line < e.line ∨ d.line = e.line ∧ d.column < e.column

theorem InOrder.keywords_sublist {tokens : List Token} {windows : List Window}
    (h : InOrder tokens windows) : (windows.map Window.keyword).Sublist tokens := by
  induction h with
  | nil tokens => exact List.nil_sublist tokens
  | @cons before after w windows h ih =>
    have hfirst : [w.keyword].Sublist (before ++ w.tokens) := by simp [Window.tokens]
    simpa using hfirst.append ih

theorem pairwise_scan (file source : Text) : (scan file source).Pairwise Declaration.Before := by
  obtain ⟨windows, hdeclares, horder⟩ := @windows_of_declarations file source .empty [] _ rfl
  have hplaces : (scan file source).map (fun d => (d.line, d.column)) =
      (windows.map Window.keyword).map fun t => (t.start.line, t.start.column) := by
    rw [List.map_map, ← List.forall₂_eq_eq_eq, List.forall₂_map_left_iff,
      List.forall₂_map_right_iff]
    exact hdeclares.flip.imp fun d w hw => Prod.ext hw.line hw.column
  have hkeywords := (Lexer.pairwise_tokensFrom [] .start source).1.sublist horder.keywords_sublist
  have hpairs : ((windows.map Window.keyword).map fun t => (t.start.line, t.start.column)).Pairwise
      fun p q => p.1 < q.1 ∨ p.1 = q.1 ∧ p.2 < q.2 := List.pairwise_map.mpr hkeywords
  rwa [← hplaces, List.pairwise_map] at hpairs

theorem exists_window_of_mem_scan {file source : Text} {d : Declaration}
    (hd : d ∈ scan file source) :
    ∃ w : Window, w.Declares file source d ∧ w.tokens <:+: tokenize source := by
  obtain ⟨pending, keyword, after, hruns, hdeclared⟩ := mem_declarations_iff.mp hd
  obtain ⟨before, htokens⟩ := hruns.suffix
  obtain ⟨hexternal, -⟩ := declared_eq_some hdeclared
  rw [declared, if_pos hexternal] at hdeclared
  obtain ⟨w, hw, hwindow⟩ := exists_window htokens.symm hexternal hdeclared
  refine ⟨w, hw, before, resumption after, ?_⟩
  rw [List.append_assoc, ← hwindow, htokens]

namespace Editor

namespace Document

/-! ### One line -/

variable {document : Document} {line : Int}

/-- Before the line of the first keyword there is nothing to find. -/
theorem externalAt?_eq_none (h : ∀ r ∈ document.externals.head?, line < r.declaration.line - 1) :
    document.externalAt? line = none := by
  rw [externalAt?]
  cases hexternals : document.externals with
  | nil => rfl
  | cons r rest =>
    rw [hexternals] at h
    have hfirst : line < r.declaration.line - 1 := h r rfl
    rw [List.takeWhile_cons_of_neg (by rw [decide_eq_true_eq]; omega)]
    rfl

/-- Among declarations in the order of their keywords those that have begun on a line come first. -/
theorem begun_eq_filter {requests : List Request}
    (h : requests.Pairwise fun r s => r.declaration.Before s.declaration) :
    (requests.takeWhile fun r => (r.declaration.line : Int) - 1 ≤ line) =
      requests.filter fun r => (r.declaration.line : Int) - 1 ≤ line := by
  induction requests with
  | nil => rfl
  | cons r rest ih =>
    obtain ⟨hfirst, hrest⟩ := List.pairwise_cons.mp h
    by_cases hbegun : (r.declaration.line : Int) - 1 ≤ line
    · rw [List.takeWhile_cons_of_pos (by simpa using hbegun),
        List.filter_cons_of_pos (by simpa using hbegun), ih hrest]
    · rw [List.takeWhile_cons_of_neg (by simpa using hbegun),
        List.filter_cons_of_neg (by simpa using hbegun), eq_comm, List.filter_eq_nil_iff]
      intro s hs
      have hline : r.declaration.line ≤ s.declaration.line := by
        have := hfirst s hs
        unfold Declaration.Before at this
        omega
      simp only [decide_eq_true_eq]
      omega

/-- The declaration that is found on a line is the last one that has begun there, if the line is
not behind its last one. -/
theorem externalAt?_eq_some_iff {before after : List Request} {r : Request}
    (h : document.externals.Pairwise fun r s => r.declaration.Before s.declaration)
    (hexternals : document.externals = before ++ r :: after) :
    document.externalAt? line = some r ↔ (r.declaration.line : Int) - 1 ≤ line ∧
      line ≤ lastLine r.declaration ∧ ∀ s ∈ after, line < s.declaration.line - 1 := by
  have hnew : r ∉ after := by
    rw [hexternals] at h
    intro hmem
    have hself := (List.pairwise_cons.mp (List.pairwise_append.mp h).2.1).1 r hmem
    unfold Declaration.Before at hself
    omega
  rw [externalAt?, begun_eq_filter h, hexternals, List.filter_append, Option.filter_eq_some_iff,
    decide_eq_true_iff]
  constructor
  · rintro ⟨hlast, hend⟩
    have hmem := List.mem_of_getLast? hlast
    rw [← List.filter_append, List.mem_filter, decide_eq_true_iff] at hmem
    refine ⟨hmem.2, hend, fun s hs => Int.not_le.mp fun hbegun => hnew ?_⟩
    -- a later declaration that has begun would be found instead
    have hlater : s ∈ after.filter fun r => (r.declaration.line : Int) - 1 ≤ line :=
      List.mem_filter.mpr ⟨hs, decide_eq_true hbegun⟩
    obtain ⟨last, hfound⟩ := Option.ne_none_iff_exists'.mp
      (mt List.getLast?_eq_none_iff.mp (List.ne_nil_of_mem hlater))
    rw [List.filter_cons_of_pos (by simpa using hmem.2), List.getLast?_append,
      List.getLast?_cons_of_ne_nil (List.ne_nil_of_mem hlater), hfound, Option.some_or] at hlast
    exact List.mem_of_mem_filter (List.mem_of_getLast? (hfound.trans hlast))
  · rintro ⟨hbegun, hend, hafter⟩
    have hnone : (after.filter fun r => (r.declaration.line : Int) - 1 ≤ line) = [] := by
      rw [List.filter_eq_nil_iff]
      intro s hs
      have := hafter s hs
      simp only [decide_eq_true_eq]
      omega
    rw [List.filter_cons_of_pos (by simpa using hbegun), hnone, List.getLast?_concat]
    exact ⟨rfl, hend⟩

theorem pairwise_ofSource (name source : Text) : (ofSource name source).externals.Pairwise
    fun r s => r.declaration.Before s.declaration :=
  List.pairwise_map.mpr (pairwise_scan name source)

end Document

/-! ### All lines of a declaration -/

/-- The line from zero on which a token of the source ends: that of its last character. -/
def endLine (source : Text) (t : Token) : Nat := (source.take (t.stop - 1)).count '\n'

/-- A declaration is found, and hovering tells of it, on all lines from that of its keyword to that
on which its binding ends, up to the keyword of a later declaration. -/
def FoundThroughout (document : Document) (source : Text) (d : Declaration)
    (later : List Declaration) (binding : Token) : Prop :=
  ∀ line : Int, d.line - 1 ≤ line → line ≤ endLine source binding →
    (∀ e ∈ later, line < e.line - 1) →
    document.externalAt? line = some d.request ∧
      document.hover? line = some ⟨hoverText d.request, spanOf d⟩

/-- The line feeds in a window, from its keyword to the last character of its binding. -/
def lineFeeds (source : Text) (w : Window) : Nat :=
  (source.extract w.keyword.start.offset (w.binding.stop - 1)).count '\n'

theorem endLine_of_window {name source : Text} {d : Declaration} {w : Window}
    (hw : w.Declares name source d) (htokens : w.tokens <:+: tokenize source) :
    (endLine source w.binding : Int) = d.line - 1 + lineFeeds source w := by
  have hkeyword : w.keyword ∈ tokenize source := htokens.subset List.mem_cons_self
  have hends : [w.keyword, w.binding].Sublist (tokenize source) := by
    refine .trans (.cons_cons _ ?_) htokens.sublist
    simp
  have hbehind : w.keyword.start.offset < w.binding.start.offset := by
    have hpair := (Lexer.ordered_tokensFrom [] .start source).1.sublist hends
    exact ((List.pairwise_cons.mp hpair).1 _ List.mem_cons_self).1
  have hstop : w.keyword.start.offset ≤ w.binding.stop - 1 := by
    rw [Token.stop]
    omega
  have hsplit := extract_append_extract source (Nat.zero_le w.keyword.start.offset) hstop
  have hcount := congrArg (List.count '\n') hsplit
  simp only [List.extract, List.drop_zero, Nat.sub_zero, List.count_append] at hcount
  have hline := (place_of_mem_tokenize hkeyword).1
  rw [endLine, lineFeeds, List.extract, hw.line]
  omega

theorem externalAt?_ofSource {name source : Text} {before after : List Declaration}
    {d : Declaration} (hsplit : scan name source = before ++ d :: after) (line : Int) :
    (Document.ofSource name source).externalAt? line = some d.request ↔
      d.line - 1 ≤ line ∧ line ≤ d.line - 1 + d.typeText.count '\n' + 1 ∧
        ∀ e ∈ after, line < e.line - 1 := by
  have hexternals : (Document.ofSource name source).externals =
      before.map Declaration.request ++ d.request :: after.map Declaration.request := by
    rw [Document.ofSource, hsplit, List.map_append, List.map_cons]
  rw [Document.externalAt?_eq_some_iff (Document.pairwise_ofSource name source) hexternals,
    List.forall_mem_map]
  rfl

theorem foundThroughout_iff {name source : Text} {before after : List Declaration}
    {d : Declaration} {w : Window} (hsplit : scan name source = before ++ d :: after)
    (hw : w.Declares name source d) (htokens : w.tokens <:+: tokenize source) :
    FoundThroughout (.ofSource name source) source d after w.binding ↔
      lineFeeds source w ≤ d.typeText.count '\n' + 1 ∨
        ∃ e ∈ after, e.line ≤ d.line + d.typeText.count '\n' + 2 := by
  have hend := endLine_of_window hw htokens
  constructor
  · intro h
    by_contra hnot
    simp only [not_or, not_exists, not_and, Nat.not_le] at hnot
    -- the first line behind those on which the declaration is looked for
    have hfound := (h (d.line - 1 + d.typeText.count '\n' + 2) (by omega) (by omega) fun e he => by
      have := hnot.2 e he
      omega).1
    have hline := ((externalAt?_ofSource hsplit _).mp hfound).2.1
    omega
  · intro h line hstart hstop hafter
    have hline : line ≤ d.line - 1 + d.typeText.count '\n' + 1 := by
      rcases h with hfeeds | ⟨e, he, hnext⟩
      · omega
      · have := hafter e he
        omega
    have hfound := (externalAt?_ofSource hsplit line).mpr ⟨hstart, hline, hafter⟩
    refine ⟨hfound, ?_⟩
    rw [Document.hover?, hfound]
    rfl

/-- Where an editor finds the declarations of a source: before the first keyword there is none; a
declaration is found from the line of its keyword on, for as many lines as its type has line feeds
and one more, up to the line of the next keyword; and so it is found on all of its lines exactly if
no more than one of the line feeds between its keyword and the end of its binding stands outside the
text of its type, or the next declaration begins on the first line that this leaves out or
before. -/
theorem found_of_scan (name source : Text) :
    (∀ line : Int, (∀ d ∈ (scan name source).head?, line < d.line - 1) →
      (Document.ofSource name source).externalAt? line = none) ∧
    ∀ before d after, scan name source = before ++ d :: after →
      (∀ line : Int, (Document.ofSource name source).externalAt? line = some d.request ↔
        d.line - 1 ≤ line ∧ line ≤ d.line - 1 + d.typeText.count '\n' + 1 ∧
          ∀ e ∈ after, line < e.line - 1) ∧
      (∃ w : Window, w.Declares name source d ∧ w.tokens <:+: tokenize source) ∧
      ∀ w : Window, w.Declares name source d → w.tokens <:+: tokenize source →
        (FoundThroughout (.ofSource name source) source d after w.binding ↔
          lineFeeds source w ≤ d.typeText.count '\n' + 1 ∨
            ∃ e ∈ after, e.line ≤ d.line + d.typeText.count '\n' + 2) := by
  constructor
  · intro line h
    apply Document.externalAt?_eq_none
    rw [Document.ofSource, List.head?_map]
    intro r hr
    obtain ⟨d, hd, rfl⟩ := Option.map_eq_some_iff.mp hr
    exact h d hd
  · intro before d after hsplit
    have hmem : d ∈ scan name source := by simp [hsplit]
    exact ⟨externalAt?_ofSource hsplit, exists_window_of_mem_scan hmem,
      fun w => foundThroughout_iff hsplit⟩

/-- A declaration with two line feeds before its colon. -/
def lateColon : Text := "external f\n\n: int = \x22g\x22".toList

/-- On the line of its colon and its binding the declaration is not found. -/
theorem not_foundThroughout_lateColon : ∃ d, scan ['u'] lateColon = [d] ∧ ∃ w : Window,
    w.Declares ['u'] lateColon d ∧ w.tokens <:+: tokenize lateColon ∧
      endLine lateColon w.binding = 2 ∧ (Document.ofSource ['u'] lateColon).externalAt? 2 = none ∧
      ¬FoundThroughout (.ofSource ['u'] lateColon) lateColon d [] w.binding := by
  have hscan : scan ['u'] lateColon =
      [⟨['f'], ['g'], "int".toList, .empty, ['u'], 1, 1⟩] := by decide +kernel
  have hmem := List.mem_singleton_self
    (⟨['f'], ['g'], "int".toList, .empty, ['u'], 1, 1⟩ : Declaration)
  rw [← hscan] at hmem
  obtain ⟨w, hw, htokens⟩ := exists_window_of_mem_scan hmem
  have hend : ∀ t ∈ tokenize lateColon,
      (t.lexeme = .string ['g'] ∨ t.lexeme = .char ['g'] ∨
        t.lexeme = .identifier ∧ t.text = ['g']) → endLine lateColon t = 2 := by decide +kernel
  have hbinding : w.binding ∈ w.tokens := by simp [Window.tokens]
  have hline := hend w.binding (htokens.subset hbinding) hw.binding
  have hnone : (Document.ofSource ['u'] lateColon).externalAt? 2 = none := by
    rw [← Option.isNone_iff_eq_none]
    decide +kernel
  refine ⟨_, hscan, w, hw, htokens, hline, hnone, fun h => ?_⟩
  have hfound := (h 2 (by decide) (by rw [hline]; decide) (List.forall_mem_nil _)).1
  rw [hnone] at hfound
  cases hfound

end Editor

end ForeignBindings
