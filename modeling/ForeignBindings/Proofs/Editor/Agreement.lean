import ForeignBindings.Proofs.Check.Accounting
import ForeignBindings.Proofs.Declaration.Keyword
import ForeignBindings.Proofs.Editor.Session
import ForeignBindings.Proofs.Text.Encoding

/-! The warnings of an editor and of a check.  Whatever an oracle says, or if it fails, the warnings
in the report of a check are the doubts about the declarations that were read; and for the one
source of a project an editor shows the same warnings, in the same order and at the same places. -/

namespace ForeignBindings

/-! ### Warnings in a report -/

namespace Check

variable {fs : FileSystem} {oracle : Oracle} {root start : Path} {files : List Path}

/-- The diagnostic is a warning about a type. -/
def isDoubt (d : Diagnostic) : Bool := d.code = some "W0101".toList

/-- The warnings in a report. -/
def doubtsIn (report : Report) : List Diagnostic := report.diagnostics.filter isDoubt

theorem filter_doubts (declarations : List Declaration) :
    (declarations.flatMap doubts).filter isDoubt = declarations.flatMap doubts := by
  rw [List.filter_eq_self]
  intro d hd
  obtain ⟨declaration, -, hd⟩ := List.mem_flatMap.mp hd
  obtain ⟨doubt, -, rfl⟩ := List.mem_map.mp hd
  exact decide_eq_true rfl

theorem filter_other {code : Text} {diagnostics : List Diagnostic}
    (h : ∀ d ∈ diagnostics, d.code = some code) (hcode : code ≠ "W0101".toList) :
    diagnostics.filter isDoubt = [] := by
  rw [List.filter_eq_nil_iff]
  intro d hd hdoubt
  have hsame := (h d hd).symm.trans (of_decide_eq_true hdoubt)
  exact hcode (Option.some.inj hsame)

theorem filter_unread (fs : FileSystem) (files : List Path) :
    (unread fs files).filter isDoubt = [] := by
  apply @filter_other "E0103".toList _ _ (by decide)
  intro d hd
  obtain ⟨file, -, hd⟩ := List.mem_flatMap.mp hd
  split at hd
  · cases hd
  · rw [List.mem_singleton.mp hd]

theorem filter_entry {d : Declaration} {v : Verdict} {entry : List Diagnostic}
    (h : Entry d v entry) : entry.filter isDoubt = doubts d := by
  have hdoubts : (doubts d).filter isDoubt = doubts d := by
    simpa using filter_doubts [d]
  have hagainst {code : Text} {e : Diagnostic} (he : Against d code e)
      (hcode : code ≠ "W0101".toList) : (doubts d ++ [e]).filter isDoubt = doubts d := by
    rw [List.filter_append, hdoubts, filter_other (List.forall_mem_singleton.mpr he.code) hcode,
      List.append_nil]
  cases h with
  | accepted => exact hdoubts
  | unresolved he => exact hagainst he (by decide)
  | mismatch he => exact hagainst he (by decide)

theorem filter_entries {judged : List (Declaration × Verdict)} {entries : List (List Diagnostic)}
    (h : List.Forall₂ (fun (pair : Declaration × Verdict) entry => Entry pair.1 pair.2 entry)
      judged entries) :
    entries.flatten.filter isDoubt = (judged.map Prod.fst).flatMap doubts := by
  induction h with
  | nil => rfl
  | cons hentry _ ih =>
    rw [List.flatten_cons, List.filter_append, filter_entry hentry, ih, List.map_cons,
      List.flatMap_cons]

/-- The warnings in a report on verdicts are the doubts about all declarations. -/
theorem ReportsVerdicts.doubtsIn_eq {verdicts : List Verdict} {report : Report}
    (h : ReportsVerdicts fs files verdicts report)
    (hlength : verdicts.length = (readable fs files).length) :
    doubtsIn report = (readable fs files).flatMap doubts := by
  obtain ⟨entries, hentries, hdiagnostics⟩ := h.diagnostics
  rw [doubtsIn, hdiagnostics, List.filter_append, filter_unread, filter_entries hentries,
    List.map_fst_zip (Nat.le_of_eq hlength.symm), List.nil_append]

/-- The warnings in a report on a failure of the oracle are the doubts about all declarations. -/
theorem ReportsFailure.doubtsIn_eq {failure : Failure} {report : Report}
    (h : ReportsFailure fs files root failure report) :
    doubtsIn report = (readable fs files).flatMap doubts := by
  obtain ⟨e, he, hdiagnostics⟩ := h.diagnostics
  have hother : [e].filter isDoubt = [] := by
    rcases he.code with ⟨-, hcode⟩ | ⟨-, hcode⟩
    · exact filter_other (List.forall_mem_singleton.mpr hcode) (by decide)
    · exact filter_other (List.forall_mem_singleton.mpr hcode) (by decide)
  rw [doubtsIn, hdiagnostics, List.filter_append, filter_unread, List.filter_append, filter_doubts,
    hother, List.nil_append, List.append_nil]

/-- Asked about the declarations, the oracle gives a verdict for each, or fails as an oracle. -/
def Answers (oracle : Oracle) (root : Path) (declarations : List Declaration) : Prop :=
  (∃ verdicts, Judges oracle root declarations verdicts) ∨
    ∃ failure, FailsOn oracle root declarations failure

/-- Whatever the oracle answers, the check warns of all doubts about what was read. -/
theorem doubtsIn_of_answers {configuration : Path} {contents : Json} {directories : List Path}
    (h : Selects fs start configuration contents directories files)
    (hanswers : Answers oracle configuration.parent (readable fs files)) :
    ∃ report, (bindings fs oracle start).report = .ok report ∧
      doubtsIn report = (readable fs files).flatMap doubts := by
  obtain ⟨events, hjudged⟩ := bindings_of_selects h oracle
  rw [hjudged]
  rcases hanswers with ⟨verdicts, hjudges⟩ | ⟨failure, hfails⟩
  · obtain ⟨report, hreport, hverdicts⟩ := reportsVerdicts_judged hjudges
    exact ⟨report, hreport, hverdicts.doubtsIn_eq hjudges.length⟩
  · obtain ⟨report, hreport, hfailure⟩ := reportsFailure_judged hfails
    exact ⟨report, hreport, hfailure.doubtsIn_eq⟩

end Check

/-! ### Warnings of an editor -/

namespace Editor

open Check

/-- A warning of a check and one of an editor say the same about the same place: the check counts
lines and columns from one, the editor from zero. -/
structure Agrees (d : Diagnostic) (notice : Notice) : Prop where
  message : d.message = notice.message
  checked : d.code = some "W0101".toList
  noticed : notice.code = "W0101".toList
  line : (notice.span.start.line : Int) = d.line - 1
  character : (notice.span.start.character : Int) = d.column - 1

/-- The message opens the document with this source, or changes or saves it while the workspace has
this source as its text. -/
inductive Brings (workspace : Workspace) (uri source : Text) : Message → Prop
  | opened : Brings workspace uri source (.opened uri source)
  | changed {text : Text} (htext : workspace uri = some source) :
      Brings workspace uri source (.changed uri text)
  | saved (htext : workspace uri = some source) : Brings workspace uri source (.saved uri)

theorem Brings.published {session : Session} {workspace : Workspace} {uri source : Text}
    {m : Message} (h : Brings workspace uri source m) :
    (session.handle workspace m).2.published = [⟨uri, diagnostics uri source⟩] := by
  cases h with
  | opened => rw [Session.handle, Session.reaction_analyze]
  | changed htext =>
    rw [Session.handle_from (m := .changed uri _) trivial htext, Session.reaction_analyze]
    rfl
  | saved htext =>
    rw [Session.handle_from (m := .saved uri) trivial htext, Session.reaction_analyze]
    rfl

theorem agrees_doubts {d : Declaration} (hline : 1 ≤ d.line) (hcolumn : 1 ≤ d.column)
    (file : Text) : List.Forall₂ Agrees (Check.doubts (d.inFile file))
      (doubts d (TypeText.describe d.typeText)) := by
  rw [Check.doubts, doubts, List.forall₂_map_left_iff, List.forall₂_map_right_iff]
  refine List.forall₂_same.mpr fun doubt _ => ⟨rfl, rfl, rfl, ?_, ?_⟩
  · exact Int.toNat_of_nonneg (by simpa using hline)
  · exact Int.toNat_of_nonneg (by simpa using hcolumn)

/-- A check and an editor that name a source differently have the same warnings about it. -/
theorem agrees_scan (file uri source : Text) :
    List.Forall₂ Agrees ((scan file source).flatMap Check.doubts) (diagnostics uri source) := by
  have hplaces : ∀ d ∈ scan uri source, 1 ≤ d.line ∧ 1 ≤ d.column := by
    intro d hd
    obtain ⟨keyword, hmem, hexternal, hdline, hdcolumn⟩ := exists_keyword_of_mem_scan hd
    obtain ⟨line, before, after, hline, hcolumn, -⟩ := line_of_keyword hmem hexternal
    omega
  rw [scan_inFile file uri, List.flatMap_map, diagnostics]
  generalize scan uri source = declarations at hplaces
  induction declarations with
  | nil => exact .nil
  | cons d declarations ih =>
    obtain ⟨⟨hline, hcolumn⟩, hrest⟩ := List.forall_mem_cons.mp hplaces
    exact List.rel_append (agrees_doubts hline hcolumn file) (ih hrest)

end Editor

/-! ### The same warnings -/

theorem FileSystem.read_of_encode {fs : FileSystem} {file : Path} {source : Text}
    (h : fs.find .read file = .ok (.file (Utf8.encode source))) (hplain : '\r' ∉ source) :
    fs.read file = .ok source := by
  rw [read, h]
  dsimp only
  rw [Utf8.decode_encode]
  exact congrArg Except.ok (Text.unifyNewlines_of_not_mem hplain)

namespace Editor

open Check

/-- The server publishes the warnings of a text, and they are those of the text alone; in a project
whose only source file has this text the check has the same warnings, one by one and in the same
order, whatever verdicts the oracle gives, or if it fails. -/
theorem warnings_agree {source : Text} (hplain : '\r' ∉ source) (uri : Text) :
    (Document.ofSource uri source).warnings = diagnostics uri source ∧
    (∀ (session : Session) (workspace : Workspace) (m : Message), Brings workspace uri source m →
      (session.handle workspace m).2.published = [⟨uri, diagnostics uri source⟩]) ∧
    ∀ {fs : FileSystem} {oracle : Oracle} {start configuration file : Path} {contents : Json}
      {directories : List Path}, Selects fs start configuration contents directories [file] →
      fs.find .read file = .ok (.file (Utf8.encode source)) →
      Answers oracle configuration.parent (scan file.text source) →
      ∃ report, (bindings fs oracle start).report = .ok report ∧
        List.Forall₂ Agrees (doubtsIn report) (diagnostics uri source) := by
  refine ⟨Document.warnings_ofSource uri source, fun session workspace m hm => hm.published, ?_⟩
  intro fs oracle start configuration file contents directories hselects hfile hanswers
  have hreadable : readable fs [file] = scan file.text source := by
    simp [readable, FileSystem.read_of_encode hfile hplain]
  rw [← hreadable] at hanswers
  obtain ⟨report, hreport, hdoubts⟩ := doubtsIn_of_answers hselects hanswers
  refine ⟨report, hreport, ?_⟩
  rw [hdoubts, hreadable]
  exact agrees_scan file.text uri source

/-! ### A project with one source file -/

def filesWithSource (source : Text) : FileSystem :=
  .ofTree
    (.directory
      [("A.res".toList, .file (Utf8.encode source)),
       ("rescript.json".toList, .file "\x7b\x22sources\x22: \x22.\x22\x7d".toUTF8.toList)])
    ⟨.root, []⟩

theorem selects_filesWithSource (source : Text) : ∃ contents,
    Selects (filesWithSource source) ⟨.root, []⟩ ⟨.root, ["rescript.json".toList]⟩ contents
      [⟨.root, []⟩] [⟨.root, ["A.res".toList]⟩] := by
  have hentries : ((filesWithSource source).readConfiguration
      ⟨.root, ["rescript.json".toList]⟩).toOption.map SourceEntry.ofConfiguration =
      some [⟨['.'], false⟩] := by
    have hsame : (filesWithSource source).readConfiguration ⟨.root, ["rescript.json".toList]⟩ =
        (filesWithSource []).readConfiguration ⟨.root, ["rescript.json".toList]⟩ := rfl
    rw [hsame]
    decide +kernel
  exact exists_selects rfl hentries rfl rfl

/-- Two declarations with a doubt each. -/
def doubtfulSource : Text := "external f: \x27a = \x22f\x22\nexternal g: foo = \x22g\x22".toList

/-- Both warnings are there if the oracle accepts nothing, and also if it cannot run. -/
theorem warnings_of_doubtfulSource :
    (diagnostics ['u'] doubtfulSource).length = 2 ∧ ∀ oracle ∈ [refusing, missing],
      ∃ report, (bindings (filesWithSource doubtfulSource) oracle ⟨.root, []⟩).report = .ok report ∧
        List.Forall₂ Agrees (doubtsIn report) (diagnostics ['u'] doubtfulSource) := by
  have hanswers : ∀ oracle ∈ [refusing, missing],
      Answers oracle ⟨.root, []⟩ (scan "/A.res".toList doubtfulSource) := by
    have hsome : scan "/A.res".toList doubtfulSource ≠ [] := by decide +kernel
    simp only [List.forall_mem_cons]
    refine ⟨.inl ⟨(scan _ doubtfulSource).map fun _ => .mismatch none none none,
      List.length_map _, fun _ => ?_⟩, .inr ⟨_, hsome, rfl, rfl⟩, by simp⟩
    simp [refusing, Function.comp_def]
  have hplain : '\r' ∉ doubtfulSource := by decide
  obtain ⟨-, -, hagree⟩ := warnings_agree hplain ['u']
  obtain ⟨contents, hselects⟩ := selects_filesWithSource doubtfulSource
  exact ⟨by decide +kernel, fun oracle horacle => hagree hselects rfl (hanswers oracle horacle)⟩

end Editor

end ForeignBindings
