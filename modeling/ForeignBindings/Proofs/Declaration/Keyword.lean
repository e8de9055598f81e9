import ForeignBindings.Editor.Span
import ForeignBindings.Proofs.Declaration.Capture
import ForeignBindings.Proofs.Token.Place

/-! The keywords of declarations.  A declaration has the place of its keyword, and there the line of
the source holds the keyword as a whole word; an editor marks just these characters. -/

namespace ForeignBindings

open Text

namespace Editor

theorem make_eq_ok_iff {line character : Nat} {place : Place} :
    Place.make line character = .ok place ↔
      line ≤ maxNumber ∧ character ≤ maxNumber ∧ place = ⟨line, character⟩ := by
  have hrange (n : Nat) : inRange n = true ↔ n ≤ maxNumber := by simp [inRange]
  rw [Place.make]
  by_cases hline : inRange line = true
  · by_cases hcharacter : inRange character = true
    · simp [hline, hcharacter, (hrange _).mp hline, (hrange _).mp hcharacter, eq_comm]
    · simp [hline, hcharacter, ← hrange]
  · simp [hline, ← hrange]

theorem keywordSpan_succ (line character : Nat) :
    keywordSpan (line + 1 : Nat) (character + 1 : Nat) =
      ⟨⟨line, character⟩, ⟨line, character + keywordLength⟩⟩ := by
  have hline : (((line + 1 : Nat) : Int) - 1).toNat = line := by omega
  have hcharacter : (((character + 1 : Nat) : Int) - 1).toNat = character := by omega
  simp only [keywordSpan, hline, hcharacter]

/-- A span on one line is one of the protocol exactly if its end is. -/
theorem checked_eq_ok_iff {line first last : Nat} (h : first ≤ last) {span : Span} :
    Span.checked ⟨⟨line, first⟩, ⟨line, last⟩⟩ = .ok span ↔
      line ≤ maxNumber ∧ last ≤ maxNumber ∧ span = ⟨⟨line, first⟩, ⟨line, last⟩⟩ := by
  rw [Span.checked]
  constructor
  · intro hchecked
    cases hstart : Place.make line first with
    | error fault =>
      rw [hstart] at hchecked
      cases hchecked
    | ok start =>
      cases hstop : Place.make line last with
      | error fault =>
        rw [hstart, hstop] at hchecked
        cases hchecked
      | ok stop =>
        obtain ⟨hinside, -, rfl⟩ := make_eq_ok_iff.mp hstart
        obtain ⟨-, hreached, rfl⟩ := make_eq_ok_iff.mp hstop
        rw [hstart, hstop] at hchecked
        exact ⟨hinside, hreached, (Except.ok.inj hchecked).symm⟩
  · rintro ⟨hinside, hreached, rfl⟩
    have hbegins : (first : Int) ≤ maxNumber := by omega
    rw [make_eq_ok_iff.mpr ⟨hinside, hbegins, rfl⟩, make_eq_ok_iff.mpr ⟨hinside, hreached, rfl⟩]
    rfl

end Editor

theorem exists_keyword_of_mem_scan {file source : Text} {d : Declaration}
    (hd : d ∈ scan file source) : ∃ keyword ∈ tokenize source, keyword.lexeme = .external ∧
      d.line = keyword.start.line ∧ d.column = keyword.start.column := by
  obtain ⟨pending, keyword, after, hruns, hdeclared⟩ := mem_declarations_iff.mp hd
  obtain ⟨hexternal, -, hline, hcolumn⟩ := declared_eq_some hdeclared
  exact ⟨keyword, hruns.suffix.subset List.mem_cons_self, hexternal, hline, hcolumn⟩

/-- A keyword stands in the source as a whole word, behind all that its place counts. -/
theorem split_at_keyword {source : Text} {t : Token} (ht : t ∈ tokenize source)
    (hexternal : t.lexeme = .external) :
    ∃ front after, source = front ++ ("external".toList ++ after) ∧
      t.start = Position.start.advance front ∧
      (∀ c ∈ front.getLast?, isWordChar c = false) ∧
      after.head?.any isIdentifierChar = false := by
  obtain ⟨front, rest, rfl, hstart, hbreak, hreads⟩ := Lexer.startsBetween_of_mem_tokenize ht
  rcases hreads with ⟨-, hend⟩ | ⟨c, more, n, rfl, hread⟩
  · rw [hexternal] at hend
    cases hend
  rw [hexternal] at hread
  obtain ⟨after, hkeyword, hafter⟩ := Lexer.keyword_of_read hread
  rw [hkeyword] at hbreak ⊢
  exact ⟨front, after, rfl, hstart, hbreak rfl, hafter⟩

/-- The line of a keyword holds it as a whole word in its column. -/
theorem line_of_keyword {source : Text} {t : Token} (ht : t ∈ tokenize source)
    (hexternal : t.lexeme = .external) :
    ∃ line before after, t.start.line = line + 1 ∧ t.start.column = before.length + 1 ∧
      (source.splitOn '\n')[line]? = some (before ++ "external".toList ++ after) ∧
      (∀ c ∈ before.getLast?, isWordChar c = false) ∧
      ∀ c ∈ after.head?, isIdentifierChar c = false := by
  obtain ⟨front, after, rfl, hstart, hbreak, hafter⟩ := split_at_keyword ht hexternal
  obtain ⟨lines, beginning, hends⟩ := exists_endsOnLine front
  obtain ⟨hline, hcolumn⟩ := hends.advance_eq
  have hletters : "external".toList.all (· != '\n') = true := by decide
  refine ⟨lines.length, beginning, after.takeWhile (· != '\n'), by rw [hstart, hline],
    by rw [hstart, hcolumn], ?_, ?_, ?_⟩
  · rw [hends.splitOn_getElem?, List.takeWhile_append_of_pos (List.all_eq_true.mp hletters),
      List.append_assoc]
  · intro c hc
    apply hbreak
    rw [hends.text_eq, List.getLast?_append, Option.mem_def.mp hc]
    rfl
  · intro c hc
    rw [List.head?_takeWhile] at hc
    exact (Option.any_eq_false _ _).mp hafter c (Option.mem_filter_iff.mp hc).1

/-- Every token has the line and the column of its first character; and the line and the column of a
declaration are those of a keyword that stands there as a whole word, and its span in an editor is
that of the keyword's characters. -/
theorem places_of_scan (file source : Text) :
    (∀ t ∈ tokenize source, t.start.line = 1 + (source.take t.start.offset).count '\n' ∧
      ∃ i, LastLineFeed source t.start.offset i ∧
        (t.start.column : Int) = t.start.offset - i) ∧
    ∀ d ∈ scan file source, ∃ line before after,
      d.line = line + 1 ∧ d.column = before.length + 1 ∧
      (source.splitOn '\n')[line]? = some (before ++ "external".toList ++ after) ∧
      (∀ c ∈ before.getLast?, isWordChar c = false) ∧
      (∀ c ∈ after.head?, isIdentifierChar c = false) ∧
      Editor.spanOf d = ⟨⟨line, before.length⟩, ⟨line, before.length + "external".length⟩⟩ ∧
      ∀ span, (Editor.spanOf d).checked = .ok span ↔
        line ≤ Editor.maxNumber ∧ (before.length + "external".length : Nat) ≤ Editor.maxNumber ∧
          span = Editor.spanOf d := by
  refine ⟨fun t ht => place_of_mem_tokenize ht, fun d hd => ?_⟩
  obtain ⟨keyword, hmem, hexternal, hdline, hdcolumn⟩ := exists_keyword_of_mem_scan hd
  obtain ⟨line, before, after, hline, hcolumn, hsplit, hbefore, hafter⟩ :=
    line_of_keyword hmem hexternal
  rw [hline] at hdline
  rw [hcolumn] at hdcolumn
  have hspan : Editor.spanOf d =
      ⟨⟨line, before.length⟩, ⟨line, before.length + "external".length⟩⟩ := by
    rw [Editor.spanOf, hdline, hdcolumn, Editor.keywordSpan_succ]
    rfl
  refine ⟨line, before, after, hdline, hdcolumn, hsplit, hbefore, hafter, hspan, fun span => ?_⟩
  rw [hspan]
  exact Editor.checked_eq_ok_iff (Nat.le_add_right ..)

end ForeignBindings
