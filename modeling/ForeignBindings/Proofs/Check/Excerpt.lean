import ForeignBindings.Proofs.Check.Accounting
import ForeignBindings.Proofs.Declaration.Keyword
import ForeignBindings.Proofs.Text.Lines

/-! Excerpts of the source.  A diagnostic about a declaration has the line and the column of its
keyword, counted by line feeds; an excerpt takes the line of that number from a source that is cut
at every line boundary, and leaves four places for the number.  So the keyword is shown over the
mark exactly if each line boundary before it has a line feed and its line has no more than four
digits. -/

namespace ForeignBindings

open Text

/-! ### The line of a keyword -/

/-- The line behind a text is the one that line feeds count, if each line boundary in the text has
one, and further down by those that have none. -/
theorem advance_of_goesOn {text closed beginning : Text} {above : List Text}
    (h : GoesOn text above closed beginning) :
    above.length + 1 = (Position.start.advance text).line + otherEnds text ∧
      (otherEnds text = 0 → (Position.start.advance text).column = beginning.length + 1) := by
  rw [(Position.advance_start text).1, (Position.advance_start text).2]
  constructor
  · rw [h.length_above]
    omega
  · intro hnone
    have hclosed : closed.reverse.head?.any (· != '\n') = false := by
      rw [List.head?_reverse, Option.any_eq_false]
      intro c hc
      simp [h.getLast?_closed hnone c hc]
    have hplain : ∀ c ∈ beginning.reverse, (c != '\n') = true := by
      intro c hc
      rw [bne_iff_ne]
      rintro rfl
      exact absurd (h.unbroken _ (List.mem_reverse.mp hc)) (by decide)
    rw [h.text_eq, List.reverse_append, Lexer.takeWhile_append hplain hclosed, List.length_reverse]

theorem lines_of_keyword {source : Text} {t : Token} (ht : t ∈ tokenize source)
    (hexternal : t.lexeme = .external) :
    ∃ above before after,
      lines (source.take (t.start.offset + 1)) = above ++ [before ++ ['e']] ∧
      source.lines[above.length]? = some (before ++ "external".toList ++ after) ∧
      above.length + 1 = t.start.line + otherEnds (source.take t.start.offset) ∧
      (otherEnds (source.take t.start.offset) = 0 → t.start.column = before.length + 1) := by
  obtain ⟨front, rest, rfl, hstart, -, -⟩ := split_at_keyword ht hexternal
  have hoffset : t.start.offset = front.length := by
    rw [hstart, Position.offset_advance]
    exact Nat.zero_add _
  obtain ⟨above, closed, before, hgoes⟩ := exists_goesOn front
  have hletter : Unbroken ['e'] := by decide
  have hletters : Unbroken "external".toList := by decide
  have hfirst : (before ++ ['e']).lines = [before ++ ['e']] :=
    lines_unbroken (List.forall_mem_append.mpr ⟨hgoes.unbroken, hletter⟩) (by simp)
  refine ⟨above, before, rest.takeWhile fun c => !isLineBreak c, ?_, ?_, ?_, ?_⟩
  · have htake : (front ++ ("external".toList ++ rest)).take (t.start.offset + 1) =
        front ++ ['e'] := by
      rw [hoffset, List.take_length_add_append]
      rfl
    rw [htake, hgoes.lines_append _ (by decide), hfirst]
  · have hplain : ∀ c ∈ before ++ "external".toList, (!isLineBreak c) = true := fun c hc => by
      rw [List.forall_mem_append.mpr ⟨hgoes.unbroken, hletters⟩ c hc]
      rfl
    rw [hgoes.lines_append _ (by simp), List.getElem?_append_right (Nat.le_refl _), Nat.sub_self,
      ← List.head?_eq_getElem?, head?_lines (by simp), ← List.append_assoc,
      List.takeWhile_append_of_pos hplain]
  · rw [hoffset, List.take_left, hstart]
    exact (advance_of_goesOn hgoes).1
  · rw [hoffset, List.take_left, hstart]
    exact (advance_of_goesOn hgoes).2

/-! ### Excerpts -/

namespace Diagnostic

/-- A line of a source behind its number, with blanks before the number. -/
def numbered (palette : Palette) (blanks : Nat) (number : Int) (line : Text) : Text :=
  palette.ink .blue ++ List.replicate blanks ' ' ++ Text.ofInt number ++ " |".toList ++
    palette.ink .plain ++ ' ' :: line

/-- A mark behind a bar, with blanks before each of them. -/
def marked (palette : Palette) (ink : Ink) (indent margin : Nat) : Text :=
  List.replicate indent ' ' ++ palette.ink .blue ++ '|' :: palette.ink .plain ++ ' ' ::
    List.replicate margin ' ' ++ palette.ink ink ++ '^' :: palette.ink .plain

/-- Rendered with the source, the diagnostic is followed by the line on which the keyword at the
offset stands, with the keyword in the column of the diagnostic, and by a mark that stands, colours
apart, under the first character of the keyword. -/
def ShowsKeyword (palette : Palette) (source : Text) (offset : Nat) (g : Diagnostic) : Prop :=
  ∃ above before after, ∃ blanks indent margin : Nat,
    lines (source.take (offset + 1)) = above ++ [before ++ ['e']] ∧
    source.lines[above.length]? = some (before ++ "external".toList ++ after) ∧
    g.line = above.length + 1 ∧ g.column = before.length + 1 ∧
    g.render palette (some source) = Text.join ['\n']
      [g.headline palette,
        numbered palette blanks g.line (before ++ "external".toList ++ after),
        marked palette g.severity.ink indent margin] ∧
    blanks + (Text.ofInt g.line).length + " | ".length + before.length =
      indent + "| ".length + margin

/-- The diagnostic stands at the place of the declaration. -/
structure LocatedAt (g : Diagnostic) (d : Declaration) : Prop where
  file : g.file = d.file
  line : g.line = d.line
  column : g.column = d.column

variable {palette : Palette} {source line : Text} {g : Diagnostic}

theorem render_of_sourceLine? (h : g.sourceLine? source = some line) :
    g.render palette (some source) = Text.join ['\n']
      [g.headline palette, numbered palette (4 - (Text.ofInt g.line).length) g.line line,
        marked palette g.severity.ink 5 (g.column - 1).toNat] := by
  rw [render, Option.bind_some, h]
  simp [excerpt, numbered, marked, Text.padStart]

theorem length_ofInt_le_iff (n : Nat) : (Text.ofInt n).length ≤ 4 ↔ n < 10000 :=
  Nat.length_toDigits_le_iff (by decide) (by decide)

/-- The keyword is shown over the mark exactly if the lines above it are all counted and its number
fits in front of the bar. -/
theorem showsKeyword_iff {t : Token} (ht : t ∈ tokenize source) (hexternal : t.lexeme = .external)
    (hline : g.line = t.start.line) (hcolumn : g.column = t.start.column) :
    ShowsKeyword palette source t.start.offset g ↔
      otherEnds (source.take t.start.offset) = 0 ∧ t.start.line < 10000 := by
  obtain ⟨above, before, after, htake, hshown, hnumber, hbefore⟩ := lines_of_keyword ht hexternal
  have hdigits := length_ofInt_le_iff t.start.line
  rw [← hline] at hdigits
  have hbars : " | ".length = 3 ∧ "| ".length = 2 := ⟨rfl, rfl⟩
  have hrender (habove : g.line = above.length + 1) :=
    @render_of_sourceLine? palette source _ g (by
      rw [sourceLine?, habove, if_pos (by omega), Int.add_sub_cancel, Int.toNat_natCast, hshown])
  constructor
  · rintro ⟨above', before', after', blanks, indent, margin, htake', hshown', habove, hcolumn',
      hrender', hunder⟩
    obtain ⟨rfl, hlast⟩ := List.append_inj' (htake.symm.trans htake') rfl
    obtain ⟨rfl, -⟩ := List.append_inj' (List.singleton_inj.mp hlast) rfl
    obtain rfl := List.append_cancel_left (Option.some.inj (hshown.symm.trans hshown'))
    refine ⟨by omega, hdigits.mp ?_⟩
    -- the blanks and the number take up more than four places, unless there are no blanks
    have hlength := congrArg List.length ((hrender habove).symm.trans hrender')
    simp only [Text.join, List.intercalate_cons_cons, List.intercalate_singleton, numbered, marked,
      List.length_append, List.length_cons, List.length_replicate, List.length_nil] at hlength
    omega
  · rintro ⟨hnone, hfits⟩
    have habove : g.line = above.length + 1 := by omega
    have hcolumn' : g.column = before.length + 1 := by
      rw [hcolumn, hbefore hnone]
      rfl
    refine ⟨above, before, after, _, _, _, htake, hshown, habove, hcolumn', hrender habove, ?_⟩
    have := hdigits.mpr hfits
    omega

end Diagnostic

/-! ### Diagnostics about declarations -/

namespace Check

/-- The codes of the diagnostics about declarations. -/
def declarationCodes : List Text := [doubtCode, mismatchCode, unresolvedCode]

/-- The diagnostic has one of these codes. -/
def AboutDeclaration (g : Diagnostic) : Prop := ∃ code ∈ declarationCodes, g.code = some code

variable {fs : FileSystem} {oracle : Oracle} {root start : Path} {files : List Path}
  {g : Diagnostic} {report : Report}

theorem not_aboutDeclaration {code : Text} (hcode : g.code = some code)
    (hother : code ∉ declarationCodes) : ¬AboutDeclaration g := by
  rintro ⟨code', hmem, hcode'⟩
  obtain rfl := Option.some.inj (hcode.symm.trans hcode')
  exact hother hmem

theorem locatedAt_of_mem_warnings {r : Request} (h : g ∈ warnings r) :
    g.LocatedAt r.declaration := by
  obtain ⟨doubt, -, rfl⟩ := List.mem_map.mp h
  exact ⟨rfl, rfl, rfl⟩

theorem locatedAt_of_objection? {d : Declaration} {v : Verdict} (h : objection? d v = some g) :
    g.LocatedAt d := by
  cases v with
  | assignable => cases h
  | unresolved expected detail =>
    obtain rfl := Option.some.inj h
    exact ⟨rfl, rfl, rfl⟩
  | mismatch expected actual detail =>
    obtain rfl := Option.some.inj h
    exact ⟨rfl, rfl, rfl⟩

/-- What a consultation leads to stands at the declarations it was about, but for the failure of an
oracle. -/
theorem exists_declaration_of_conclude {requests : List Request}
    {outcome : Except Fault (List Verdict)} {found : List Diagnostic}
    (h : (conclude root requests outcome).1 = .ok found) (hg : g ∈ found)
    (habout : AboutDeclaration g) : ∃ r ∈ requests, g.LocatedAt r.declaration := by
  obtain ⟨verdicts, -, rfl⟩ | ⟨failure, code, -, hcode, rfl⟩ := conclude_eq_ok_iff.mp h
  · obtain ⟨r, v, hpair, hwarning | hobjection⟩ := mem_judgements.mp hg
    · exact ⟨r, (List.of_mem_zip hpair).1, locatedAt_of_mem_warnings hwarning⟩
    · exact ⟨r, (List.of_mem_zip hpair).1, locatedAt_of_objection? hobjection⟩
  · rcases List.mem_append.mp hg with hg | hg
    · obtain ⟨r, hr, hwarning⟩ := List.mem_flatMap.mp hg
      exact ⟨r, hr, locatedAt_of_mem_warnings hwarning⟩
    · obtain rfl := List.mem_singleton.mp hg
      refine absurd habout (not_aboutDeclaration rfl ?_)
      obtain ⟨message, location, cause⟩ := failure
      cases cause with
      | general => cases hcode
      | configuration path => cases hcode
      | oracle command =>
        obtain rfl := Option.some.inj hcode
        decide
      | oracleOutput command =>
        obtain rfl := Option.some.inj hcode
        decide

theorem not_aboutDeclaration_of_mem_unread (h : g ∈ unread fs files) : ¬AboutDeclaration g := by
  obtain ⟨file, -, hg⟩ := List.mem_flatMap.mp h
  split at hg
  · cases hg
  · obtain rfl := List.mem_singleton.mp hg
    exact not_aboutDeclaration rfl (by decide)

theorem exists_declaration_of_judged
    (h : (judged oracle root (scanFiles fs files)).report = .ok report)
    (hg : g ∈ report.diagnostics) (habout : AboutDeclaration g) :
    ∃ d ∈ readable fs files, g.LocatedAt d := by
  obtain ⟨hdeclarations, hdiagnostics⟩ := scanFiles_readable fs files
  have hread : g ∉ (scanFiles fs files).diagnostics := by
    rw [hdiagnostics]
    exact fun hunread => not_aboutDeclaration_of_mem_unread hunread habout
  by_cases hnone : (scanFiles fs files).declarations = []
  · rw [judged, if_pos (by simp [hnone])] at h
    obtain rfl := Except.ok.inj h
    exact absurd hg hread
  · rw [report_judged hnone, map_eq_ok_iff] at h
    obtain ⟨found, hfound, rfl⟩ := h
    obtain ⟨r, hr, hlocated⟩ := exists_declaration_of_conclude hfound
      ((List.mem_append.mp hg).resolve_left hread) habout
    obtain ⟨d, hd, rfl⟩ := List.mem_map.mp hr
    exact ⟨d, hdeclarations ▸ hd, hlocated⟩

theorem mem_readable_iff {d : Declaration} :
    d ∈ readable fs files ↔
      ∃ file ∈ files, ∃ source, fs.read file = .ok source ∧ d ∈ scan file.text source := by
  rw [readable, List.mem_flatMap]
  refine exists_congr fun file => and_congr_right fun _ => ?_
  cases fs.read file with
  | error fault => simp
  | ok source => simp

theorem not_aboutDeclaration_of_mem_onlyError {message file code : Text}
    (hother : code ∉ declarationCodes) (hg : g ∈ (onlyError message file code).diagnostics) :
    ¬AboutDeclaration g := by
  obtain rfl := List.mem_singleton.mp hg
  exact not_aboutDeclaration rfl hother

/-- A check locates its diagnostics about declarations at declarations of files that it has read. -/
theorem exists_declaration_of_located {found : Except Fault (Option Project)}
    (h : (located fs oracle start found).report = .ok report) (hg : g ∈ report.diagnostics)
    (habout : AboutDeclaration g) :
    ∃ file source, fs.read file = .ok source ∧ ∃ d ∈ scan file.text source, g.LocatedAt d := by
  rcases found with fault | _ | p
  · cases fault with
    | failure failure =>
      obtain ⟨message, location, cause⟩ := failure
      cases cause with
      | configuration path =>
        obtain rfl := Except.ok.inj h
        exact absurd habout (not_aboutDeclaration_of_mem_onlyError (by decide) hg)
      | _ => cases h
    | _ => cases h
  · obtain rfl := Except.ok.inj h
    exact absurd habout (not_aboutDeclaration_of_mem_onlyError (by decide) hg)
  · rw [located, project] at h
    cases hscan : scanSources fs p.sourceDirectories with
    | error e =>
      rw [hscan] at h
      cases h
    | ok scan =>
      rw [hscan] at h
      obtain ⟨files, -, rfl⟩ := scanSources_eq_ok_iff.mp hscan
      obtain ⟨d, hd, hlocated⟩ := exists_declaration_of_judged h hg habout
      obtain ⟨file, -, source, hread, hmem⟩ := mem_readable_iff.mp hd
      exact ⟨file, source, hread, d, hmem, hlocated⟩

/-- What a check says about declarations stands at declarations of the files that it has read; and
what is rendered with the source of a declaration shows its keyword over the mark exactly if every
line boundary before the keyword has a line feed and its line is one of the first 9999. -/
theorem excerpts_of_bindings (fs : FileSystem) (oracle : Oracle) (start : Path) :
    (∀ report, (bindings fs oracle start).report = .ok report →
      ∀ g ∈ report.diagnostics, AboutDeclaration g →
        ∃ file source, fs.read file = .ok source ∧ ∃ d ∈ scan file.text source, g.LocatedAt d) ∧
    ∀ file source, ∀ d ∈ scan file source, ∀ g : Diagnostic, g.LocatedAt d →
      ∃ keyword ∈ tokenize source, keyword.lexeme = .external ∧
        d.line = keyword.start.line ∧ d.column = keyword.start.column ∧
        ∀ palette, g.ShowsKeyword palette source keyword.start.offset ↔
          otherEnds (source.take keyword.start.offset) = 0 ∧ d.line < 10000 := by
  constructor
  · intro report hreport g hg habout
    exact exists_declaration_of_located hreport hg habout
  · intro file source d hd g hlocated
    obtain ⟨keyword, hmem, hexternal, hline, hcolumn⟩ := exists_keyword_of_mem_scan hd
    refine ⟨keyword, hmem, hexternal, hline, hcolumn, fun palette => ?_⟩
    rw [hline]
    exact Diagnostic.showsKeyword_iff hmem hexternal (by rw [hlocated.line, hline])
      (by rw [hlocated.column, hcolumn])

/-! ### A form feed above a declaration -/

/-- A comment with a form feed, and a declaration on the line after it. -/
def belowFormFeed : Text := "// \x0c\nexternal f: int = \x22f\x22".toList

def filesWithFormFeed : FileSystem :=
  .ofTree
    (.directory
      [("A.res".toList, .file (String.ofList belowFormFeed).toUTF8.toList),
       ("rescript.json".toList, .file "\x7b\x22sources\x22: \x22.\x22\x7d".toUTF8.toList)])
    ⟨.root, []⟩

/-- The error at the declaration, which is the second line for the check and the third one for the
excerpt. -/
theorem not_showsKeyword_below_formFeed :
    ∃ report, (bindings filesWithFormFeed refusing ⟨.root, []⟩).report = .ok report ∧
      ∃ g ∈ report.diagnostics, AboutDeclaration g ∧
        filesWithFormFeed.read ⟨.root, ["A.res".toList]⟩ = .ok belowFormFeed ∧
        ∃ d ∈ scan "/A.res".toList belowFormFeed, g.LocatedAt d ∧
          ∀ keyword ∈ tokenize belowFormFeed, keyword.lexeme = .external →
            ∀ palette, ¬g.ShowsKeyword palette belowFormFeed keyword.start.offset := by
  have hkeyword : ∀ t ∈ tokenize belowFormFeed, t.lexeme = .external →
      t.start.line = 2 ∧ t.start.column = 1 ∧
        otherEnds (belowFormFeed.take t.start.offset) = 1 := by decide +kernel
  have hreport : (bindings filesWithFormFeed refusing ⟨.root, []⟩).report.toOption.map
      Report.diagnostics = some [⟨.error, "Type mismatch for f: not assignable".toList,
        "/A.res".toList, 2, 1, some "E0301".toList⟩] := by decide +kernel
  have hread : (filesWithFormFeed.read ⟨.root, ["A.res".toList]⟩).toOption =
      some belowFormFeed := by decide +kernel
  have hscan : scan "/A.res".toList belowFormFeed =
      [⟨['f'], ['f'], "int".toList, .empty, "/A.res".toList, 2, 1⟩] := by decide +kernel
  obtain ⟨report, hok, hdiagnostics⟩ := Option.map_eq_some_iff.mp hreport
  refine ⟨report, toOption_eq_some_iff.mp hok, _, hdiagnostics ▸ List.mem_singleton_self _,
    ⟨mismatchCode, by decide, rfl⟩, toOption_eq_some_iff.mp hread, _,
    hscan ▸ List.mem_singleton_self _, ⟨rfl, rfl, rfl⟩, fun keyword hmem hexternal palette => ?_⟩
  obtain ⟨hline, hcolumn, hother⟩ := hkeyword keyword hmem hexternal
  rw [Diagnostic.showsKeyword_iff hmem hexternal (by rw [hline]; rfl) (by rw [hcolumn]; rfl),
    hother]
  exact fun h => absurd h.1 (by decide)

end Check

end ForeignBindings
