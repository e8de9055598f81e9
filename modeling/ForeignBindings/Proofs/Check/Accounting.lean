import Mathlib.Data.List.Forall2
import ForeignBindings.Proofs.Check.Stages
import ForeignBindings.Proofs.Compiler.Consultation
import ForeignBindings.Proofs.Text.Encoding

/-! The account that a check gives.  Its report lists the source files that cannot be read, then the
declarations of the others one by one, each with its warnings and with what the oracle says against
it; an oracle that fails is told of once, after all warnings.  The summary counts what is listed,
and the oracle is asked once about all declarations, or not at all if there are none. -/

namespace ForeignBindings.Check

/-- The errors about the source files that cannot be read. -/
def unread (fs : FileSystem) (files : List Path) : List Diagnostic :=
  files.flatMap fun file =>
    match fs.read file with
    | .ok _ => []
    | .error fault =>
      [⟨.error, "Cannot read source file: ".toList ++ fault.message, file.text, 1, 1,
        some "E0103".toList⟩]

/-- The declarations in the source files that can be read. -/
def readable (fs : FileSystem) (files : List Path) : List Declaration :=
  files.flatMap fun file =>
    match fs.read file with
    | .ok text => scan file.text text
    | .error _ => []

/-- The warnings about a declaration, one for each doubt about its type. -/
def doubts (d : Declaration) : List Diagnostic :=
  (TypeText.describe d.typeText).warnings.map fun doubt =>
    ⟨.warning, d.name ++ ": ".toList ++ doubt, d.file, d.line, d.column, some "W0101".toList⟩

/-- An error at the keyword of a declaration. -/
structure Against (d : Declaration) (code : Text) (e : Diagnostic) : Prop where
  severity : e.severity = .error
  code : e.code = some code
  file : e.file = d.file
  line : e.line = d.line
  column : e.column = d.column

/-- What is reported about a declaration with a verdict. -/
inductive Entry (d : Declaration) : Verdict → List Diagnostic → Prop
  | accepted : Entry d .assignable (doubts d)
  | unresolved {expected detail : Option Text} {e : Diagnostic}
      (h : Against d "E0302".toList e) : Entry d (.unresolved expected detail) (doubts d ++ [e])
  | mismatch {expected actual detail : Option Text} {e : Diagnostic}
      (h : Against d "E0301".toList e) :
      Entry d (.mismatch expected actual detail) (doubts d ++ [e])

/-- The error about an oracle that failed. -/
structure AboutOracle (root : Path) (failure : Failure) (e : Diagnostic) : Prop where
  severity : e.severity = .error
  message : e.message = failure.message
  file : e.file = root.text
  code : (∃ command, failure.cause = .oracle command) ∧ e.code = some "E0201".toList ∨
    (∃ command, failure.cause = .oracleOutput command) ∧ e.code = some "E0202".toList

/-- The oracle gives these verdicts, one for each of the declarations; without declarations there is
nothing to give. -/
structure Judges (oracle : Oracle) (root : Path) (declarations : List Declaration)
    (verdicts : List Verdict) : Prop where
  length : verdicts.length = declarations.length
  outcome : declarations ≠ [] →
    (oracle root (declarations.map Declaration.request)).outcome = .ok verdicts

/-- Asked about the declarations, the oracle fails as an oracle. -/
structure FailsOn (oracle : Oracle) (root : Path) (declarations : List Declaration)
    (failure : Failure) : Prop where
  some : declarations ≠ []
  outcome : (oracle root (declarations.map Declaration.request)).outcome =
    .error (.failure failure)
  ofOracle : failure.IsOfOracle

/-- The summary counts the diagnostics of a report. -/
structure Tallied (report : Report) : Prop where
  errors : report.summary.errors =
    (report.diagnostics.filter fun d => d.severity = .error).length
  warnings : report.summary.warnings =
    (report.diagnostics.filter fun d => d.severity = .warning).length
  hasErrors : report.hasErrors = true ↔ ∃ d ∈ report.diagnostics, d.severity = .error

/-- A report on verdicts: what could not be read, then an entry for each declaration in turn. -/
structure ReportsVerdicts (fs : FileSystem) (files : List Path) (verdicts : List Verdict)
    (report : Report) : Prop where
  diagnostics : ∃ entries,
    List.Forall₂ (fun (judged : Declaration × Verdict) entry => Entry judged.1 judged.2 entry)
      ((readable fs files).zip verdicts) entries ∧
    report.diagnostics = unread fs files ++ entries.flatten
  summary : report.summary = ⟨(readable fs files).length,
    (unread fs files).length + verdicts.countP (· ≠ .assignable),
    ((readable fs files).flatMap doubts).length⟩
  tallied : Tallied report

/-- A report on a failure of the oracle: what could not be read, all warnings, and the failure. -/
structure ReportsFailure (fs : FileSystem) (files : List Path) (root : Path) (failure : Failure)
    (report : Report) : Prop where
  diagnostics : ∃ e, AboutOracle root failure e ∧
    report.diagnostics = unread fs files ++ ((readable fs files).flatMap doubts ++ [e])
  summary : report.summary = ⟨(readable fs files).length, (unread fs files).length + 1,
    ((readable fs files).flatMap doubts).length⟩
  tallied : Tallied report

variable {fs : FileSystem} {oracle : Oracle} {root start : Path} {files : List Path}

/-! ### Source files -/

theorem scanFile_readable (fs : FileSystem) (file : Path) :
    (scanFile fs file).declarations = readable fs [file] ∧
      (scanFile fs file).diagnostics = unread fs [file] := by
  rw [scanFile, FileSystem.declarations, readable, unread]
  cases hread : fs.read file with
  | error fault => simp [Except.map, hread, Diagnostic.aboutFile, unreadableCode]
  | ok text => simp [Except.map, hread]

theorem scanFiles_readable (fs : FileSystem) (files : List Path) :
    (scanFiles fs files).declarations = readable fs files ∧
      (scanFiles fs files).diagnostics = unread fs files := by
  induction files with
  | nil => exact ⟨rfl, rfl⟩
  | cons file files ih =>
    obtain ⟨hdeclarations, hdiagnostics⟩ := scanFile_readable fs file
    have hreadable : readable fs (file :: files) = readable fs [file] ++ readable fs files := by
      simp [readable]
    have hunread : unread fs (file :: files) = unread fs [file] ++ unread fs files := by
      simp [unread]
    rw [hreadable, hunread, ← ih.1, ← ih.2, ← hdeclarations, ← hdiagnostics]
    exact ⟨rfl, rfl⟩

/-! ### Entries -/

theorem entry_objection (d : Declaration) (v : Verdict) :
    Entry d v (doubts d ++ (objection? d v).toList) := by
  cases v with
  | assignable => simpa [objection?] using Entry.accepted
  | unresolved expected detail => exact .unresolved ⟨rfl, rfl, rfl, rfl, rfl⟩
  | mismatch expected actual detail => exact .mismatch ⟨rfl, rfl, rfl, rfl, rfl⟩

theorem judgements_entries (declarations : List Declaration) (verdicts : List Verdict) :
    ∃ entries, List.Forall₂ (fun (pair : Declaration × Verdict) entry =>
        Entry pair.1 pair.2 entry) (declarations.zip verdicts) entries ∧
      judgements (declarations.map Declaration.request) verdicts = entries.flatten := by
  induction declarations generalizing verdicts with
  | nil => exact ⟨[], by simp, by simp [judgements]⟩
  | cons d declarations ih =>
    cases verdicts with
    | nil => exact ⟨[], by simp, by simp [judgements]⟩
    | cons v verdicts =>
      obtain ⟨entries, hentries, hjudgements⟩ := ih verdicts
      refine ⟨(doubts d ++ (objection? d v).toList) :: entries,
        .cons (entry_objection d v) hentries, ?_⟩
      rw [List.flatten_cons, ← hjudgements]
      rfl

/-! ### Counts -/

theorem countSeverity_append (severity : Severity) (ds es : List Diagnostic) :
    countSeverity severity (ds ++ es) = countSeverity severity ds + countSeverity severity es :=
  List.countP_append

theorem countSeverity_doubts (d : Declaration) :
    countSeverity .error (doubts d) = 0 ∧
      countSeverity .warning (doubts d) = (doubts d).length := by
  constructor
  · simp [countSeverity, doubts]
  · simp [countSeverity, doubts, List.countP_map, Function.comp_def]

theorem countSeverity_unread (fs : FileSystem) (files : List Path) :
    countSeverity .error (unread fs files) = (unread fs files).length ∧
      countSeverity .warning (unread fs files) = 0 := by
  have herror : ∀ d ∈ unread fs files, d.severity = .error := by
    intro d hd
    obtain ⟨file, -, hmem⟩ := List.mem_flatMap.mp hd
    split at hmem
    · cases hmem
    · rw [List.mem_singleton.mp hmem]
  constructor
  · rw [countSeverity, List.countP_eq_length]
    simpa using herror
  · rw [countSeverity, List.countP_eq_zero]
    intro d hd
    rw [herror d hd]
    decide

theorem tallied_ofDiagnostics (declarations : Nat) (diagnostics : List Diagnostic) :
    Tallied (.ofDiagnostics declarations diagnostics) where
  errors := List.countP_eq_length_filter
  warnings := List.countP_eq_length_filter
  hasErrors := hasErrors_ofDiagnostics

theorem countSeverity_entry (d : Declaration) (v : Verdict) :
    countSeverity .error (doubts d ++ (objection? d v).toList) =
        (if v = .assignable then 0 else 1) ∧
      countSeverity .warning (doubts d ++ (objection? d v).toList) = (doubts d).length := by
  obtain ⟨herror, hwarning⟩ := countSeverity_doubts d
  rw [countSeverity_append, countSeverity_append, herror, hwarning]
  cases hobjection : objection? d v with
  | none => simp [countSeverity, objection?_eq_none_iff.mp hobjection]
  | some e =>
    have hagainst : v ≠ .assignable := by
      rintro rfl
      cases hobjection
    simp [countSeverity, hagainst, (error_of_objection? hobjection).1]

theorem countSeverity_judgements {declarations : List Declaration} {verdicts : List Verdict}
    (h : verdicts.length = declarations.length) :
    countSeverity .error (judgements (declarations.map Declaration.request) verdicts) =
        verdicts.countP (· ≠ .assignable) ∧
      countSeverity .warning (judgements (declarations.map Declaration.request) verdicts) =
        (declarations.flatMap doubts).length := by
  induction declarations generalizing verdicts with
  | nil =>
    obtain rfl := List.length_eq_zero_iff.mp h
    exact ⟨rfl, rfl⟩
  | cons d declarations ih =>
    cases verdicts with
    | nil => cases h
    | cons v verdicts =>
      obtain ⟨herrors, hwarnings⟩ := ih (Nat.succ.inj h)
      obtain ⟨herror, hwarning⟩ := countSeverity_entry d v
      have hcons : judgements ((d :: declarations).map Declaration.request) (v :: verdicts) =
          (doubts d ++ (objection? d v).toList) ++
            judgements (declarations.map Declaration.request) verdicts := rfl
      rw [hcons]
      constructor
      · rw [countSeverity_append, herror, herrors, List.countP_cons]
        by_cases hv : v = .assignable <;> simp [hv, Nat.add_comm]
      · rw [countSeverity_append, hwarning, hwarnings, List.flatMap_cons, List.length_append]

theorem countSeverity_warnings (declarations : List Declaration) :
    countSeverity .error (declarations.flatMap doubts) = 0 ∧
      countSeverity .warning (declarations.flatMap doubts) =
        (declarations.flatMap doubts).length := by
  induction declarations with
  | nil => exact ⟨rfl, rfl⟩
  | cons d declarations ih =>
    obtain ⟨herror, hwarning⟩ := countSeverity_doubts d
    rw [List.flatMap_cons, countSeverity_append, countSeverity_append, herror, hwarning, ih.1,
      ih.2, List.length_append]
    exact ⟨rfl, rfl⟩

/-! ### The report -/

/-- The report for what has been read is what was said while reading, and what follows from the
answer of the oracle. -/
theorem report_scanFiles {found : List Diagnostic}
    (hnone : readable fs files = [] → found = [])
    (hsome : readable fs files ≠ [] → (conclude root ((readable fs files).map Declaration.request)
      (oracle root ((readable fs files).map Declaration.request)).outcome).1 = .ok found) :
    (judged oracle root (scanFiles fs files)).report =
      .ok (.ofDiagnostics (readable fs files).length (unread fs files ++ found)) := by
  obtain ⟨hdeclarations, hdiagnostics⟩ := scanFiles_readable fs files
  by_cases hempty : readable fs files = []
  · rw [judged, hdeclarations, hdiagnostics, hempty, hnone hempty, List.append_nil]
    rfl
  · rw [report_judged (by rwa [hdeclarations]), hdeclarations, hdiagnostics, hsome hempty]
    rfl

theorem conclude_of_failsOn {failure : Failure}
    (h : FailsOn oracle root (readable fs files) failure) :
    ∃ e, AboutOracle root failure e ∧
      (conclude root ((readable fs files).map Declaration.request)
        (oracle root ((readable fs files).map Declaration.request)).outcome).1 =
          .ok ((readable fs files).flatMap doubts ++ [e]) := by
  have hconclude {code : Text} (hcode : Cause.code? failure.cause = some code) :=
    (@conclude_eq_ok_iff root ((readable fs files).map Declaration.request) _ _).mpr
      (.inr ⟨failure, code, h.outcome, hcode, rfl⟩)
  simp only [List.flatMap_map] at hconclude
  obtain ⟨message, location, cause⟩ := failure
  cases cause with
  | oracle command => exact ⟨_, ⟨rfl, rfl, rfl, .inl ⟨⟨command, rfl⟩, rfl⟩⟩, hconclude rfl⟩
  | oracleOutput command => exact ⟨_, ⟨rfl, rfl, rfl, .inr ⟨⟨command, rfl⟩, rfl⟩⟩, hconclude rfl⟩
  | general => cases h.ofOracle
  | configuration path => cases h.ofOracle

theorem asked_judged (scan : SourceScan) :
    (judged oracle root scan).asked = if scan.declarations = [] then none
      else some (root, scan.declarations.map Declaration.request) := by
  rw [judged]
  by_cases hnone : scan.declarations = []
  · rw [if_pos (by simp [hnone]), if_pos hnone]
    rfl
  · rw [if_neg (by simp [hnone]), if_neg hnone]

/-- Nothing but the answer about the declarations counts. -/
theorem judged_congr {other : Oracle} {scan : SourceScan}
    (h : scan.declarations ≠ [] → other root (scan.declarations.map Declaration.request) =
      oracle root (scan.declarations.map Declaration.request)) :
    judged other root scan = judged oracle root scan := by
  rw [judged, judged]
  by_cases hnone : scan.declarations = []
  · rw [if_pos (by simp [hnone]), if_pos (by simp [hnone])]
  · rw [if_neg (by simp [hnone]), if_neg (by simp [hnone])]
    simp only [h hnone]

theorem reportsVerdicts_judged {verdicts : List Verdict}
    (h : Judges oracle root (readable fs files) verdicts) :
    ∃ report, (judged oracle root (scanFiles fs files)).report = .ok report ∧
      ReportsVerdicts fs files verdicts report := by
  obtain ⟨entries, hentries, hflatten⟩ := judgements_entries (readable fs files) verdicts
  obtain ⟨herrors, hwarnings⟩ := countSeverity_judgements h.length
  obtain ⟨hunreadErrors, hunreadWarnings⟩ := countSeverity_unread fs files
  rw [hflatten] at herrors hwarnings
  have hreport : (judged oracle root (scanFiles fs files)).report =
      .ok (.ofDiagnostics (readable fs files).length (unread fs files ++ entries.flatten)) := by
    apply report_scanFiles
    · intro hnone
      rw [← hflatten, hnone]
      rfl
    · intro hsome
      rw [h.outcome hsome, ← hflatten]
      rfl
  refine ⟨_, hreport, ⟨entries, hentries, rfl⟩, ?_, tallied_ofDiagnostics _ _⟩
  rw [Report.ofDiagnostics, Summary.ofDiagnostics, countSeverity_append, countSeverity_append,
    hunreadErrors, hunreadWarnings, herrors, hwarnings, Nat.zero_add]

theorem reportsFailure_judged {failure : Failure}
    (h : FailsOn oracle root (readable fs files) failure) :
    ∃ report, (judged oracle root (scanFiles fs files)).report = .ok report ∧
      ReportsFailure fs files root failure report := by
  obtain ⟨e, he, hconclude⟩ := conclude_of_failsOn h
  obtain ⟨herrors, hwarnings⟩ := countSeverity_warnings (readable fs files)
  obtain ⟨hunreadErrors, hunreadWarnings⟩ := countSeverity_unread fs files
  have hreport : (judged oracle root (scanFiles fs files)).report =
      .ok (.ofDiagnostics (readable fs files).length
        (unread fs files ++ ((readable fs files).flatMap doubts ++ [e]))) :=
    report_scanFiles (fun hnone => absurd hnone h.some) fun _ => hconclude
  refine ⟨_, hreport, ⟨e, he, rfl⟩, ?_, tallied_ofDiagnostics _ _⟩
  have herror : countSeverity .error [e] = 1 := by simp [countSeverity, he.severity]
  have hwarning : countSeverity .warning [e] = 0 := by simp [countSeverity, he.severity]
  simp only [Report.ofDiagnostics, Summary.ofDiagnostics, countSeverity_append, hunreadErrors,
    hunreadWarnings, herrors, hwarnings, herror, hwarning, Nat.zero_add, Nat.add_zero]

/-- The account that a check gives of source files: what it reports for verdicts and for an oracle
that fails, what it asks the oracle, and that it asks nothing else. -/
structure Accounts (fs : FileSystem) (oracle : Oracle) (start root : Path) (files : List Path) :
    Prop where
  verdicts : ∀ verdicts, Judges oracle root (readable fs files) verdicts →
    ∃ report, (bindings fs oracle start).report = .ok report ∧
      ReportsVerdicts fs files verdicts report
  failure : ∀ failure, FailsOn oracle root (readable fs files) failure →
    ∃ report, (bindings fs oracle start).report = .ok report ∧
      ReportsFailure fs files root failure report
  asked : (bindings fs oracle start).asked = if readable fs files = [] then none
    else some (root, (readable fs files).map Declaration.request)
  only : ∀ other : Oracle, (readable fs files ≠ [] →
      other root ((readable fs files).map Declaration.request) =
        oracle root ((readable fs files).map Declaration.request)) →
    (bindings fs other start).report = (bindings fs oracle start).report

theorem accounts_of_selects {configuration : Path} {contents : Json} {directories : List Path}
    (h : Selects fs start configuration contents directories files) (oracle : Oracle) :
    Accounts fs oracle start configuration.parent files := by
  obtain ⟨events, hjudged⟩ := bindings_of_selects h oracle
  have hdeclarations := (scanFiles_readable fs files).1
  constructor
  · rw [hjudged]
    exact fun verdicts hjudges => reportsVerdicts_judged hjudges
  · rw [hjudged]
    exact fun failure hfails => reportsFailure_judged hfails
  · rw [hjudged]
    show (judged oracle configuration.parent (scanFiles fs files)).asked = _
    rw [asked_judged, hdeclarations]
  · intro other hother
    obtain ⟨events', hjudged'⟩ := bindings_of_selects h other
    rw [hjudged, hjudged']
    show (judged other _ _).report = (judged oracle _ _).report
    rw [judged_congr]
    rwa [hdeclarations]

/-- With a readable configuration, either the source files are selected, and the check gives its
account of them, or a walk for them fails; that ends the check without a report, and nothing is
asked. -/
theorem bindings_account {configuration : Path} {contents : Json}
    (hfound : fs.configuration? start = .ok (some configuration))
    (hparsed : fs.readConfiguration configuration = .ok contents) (oracle : Oracle) :
    ((∃ directories files, Selects fs start configuration contents directories files) ∨
      ∃ fault, Unwalkable fs configuration.parent contents fault) ∧
    (∀ directories files, Selects fs start configuration contents directories files →
      Accounts fs oracle start configuration.parent files) ∧
    ∀ fault, Unwalkable fs configuration.parent contents fault →
      (bindings fs oracle start).report = .error (.ofWalk fault) ∧
        (bindings fs oracle start).asked = none := by
  refine ⟨selects_or_unwalkable hfound hparsed,
    fun directories files hselects => accounts_of_selects hselects oracle, fun fault hrefused => ?_⟩
  obtain ⟨events, hbindings⟩ := bindings_of_unwalkable hfound hparsed hrefused oracle
  rw [hbindings]
  exact ⟨rfl, rfl⟩

/-! ### A file that cannot be read, and two declarations -/

/-- A project with a file that is not UTF-8 and one with two declarations, of which the first has a
type that is not fully known. -/
def filesWithUnread : FileSystem :=
  .ofTree
    (.directory
      [("A.res".toList, .file [0xff]),
       ("B.res".toList,
        .file "external f: \x27a = \x22f\x22\nexternal g: int = \x22g\x22".toUTF8.toList),
       ("rescript.json".toList, .file "\x7b\x22sources\x22: \x22.\x22\x7d".toUTF8.toList)])
    ⟨.root, []⟩

def filesOfUnread : List Path := [⟨.root, ["A.res".toList]⟩, ⟨.root, ["B.res".toList]⟩]

/-- The oracle that accepts nothing. -/
def refusing : Oracle :=
  fun _ requests => ⟨.ok (requests.map fun _ => .mismatch none none none), [], []⟩

/-- The oracle that cannot run. -/
def missing : Oracle := fun _ _ => ⟨.error (.failure (.ofOracle "no compiler".toList [])), [], []⟩

theorem selects_filesWithUnread : ∃ contents,
    Selects filesWithUnread ⟨.root, []⟩ ⟨.root, ["rescript.json".toList]⟩ contents [⟨.root, []⟩]
      filesOfUnread := by
  have hentries : (filesWithUnread.readConfiguration
      ⟨.root, ["rescript.json".toList]⟩).toOption.map SourceEntry.ofConfiguration =
      some [⟨['.'], false⟩] := by
    decide +kernel
  exact exists_selects rfl hentries rfl rfl

/-- With verdicts there is an error for the file and for each declaration, without them one for the
file and one for the oracle; the warning is there in any case. -/
theorem account_of_unread_file :
    (∃ report, (bindings filesWithUnread refusing ⟨.root, []⟩).report = .ok report ∧
      report.summary = ⟨2, 3, 1⟩) ∧
    (∃ report, (bindings filesWithUnread missing ⟨.root, []⟩).report = .ok report ∧
      report.summary = ⟨2, 2, 1⟩ ∧
      ∃ e ∈ report.diagnostics, e.message = "no compiler".toList ∧ e.code = some "E0201".toList) ∧
    (bindings filesWithUnread missing ⟨.root, []⟩).asked.map (fun asked => asked.2.length) =
      some 2 := by
  have hdeclarations : (readable filesWithUnread filesOfUnread).length = 2 := by decide +kernel
  have hunread : (unread filesWithUnread filesOfUnread).length = 1 := by decide +kernel
  have hdoubts : ((readable filesWithUnread filesOfUnread).flatMap doubts).length = 1 := by
    decide +kernel
  have hsome : readable filesWithUnread filesOfUnread ≠ [] := by
    intro hnone
    rw [hnone] at hdeclarations
    cases hdeclarations
  obtain ⟨contents, hselects⟩ := selects_filesWithUnread
  have hrefusing := (bindings_account hselects.found hselects.parsed refusing).2.1 _ _ hselects
  have hmissing := (bindings_account hselects.found hselects.parsed missing).2.1 _ _ hselects
  refine ⟨?_, ?_, ?_⟩
  · obtain ⟨report, hreport, hreports⟩ :=
      hrefusing.verdicts
        ((readable filesWithUnread filesOfUnread).map fun _ => .mismatch none none none)
        ⟨List.length_map _, fun _ => by simp [refusing, Function.comp_def]⟩
    refine ⟨report, hreport, ?_⟩
    rw [hreports.summary, hunread, hdoubts, List.countP_map, List.countP_eq_length.mpr (by simp),
      hdeclarations]
    rfl
  · obtain ⟨report, hreport, hreports⟩ :=
      hmissing.failure (.ofOracle "no compiler".toList []) ⟨hsome, rfl, rfl⟩
    refine ⟨report, hreport, ?_, ?_⟩
    · rw [hreports.summary, hdeclarations, hunread, hdoubts]
      rfl
    · obtain ⟨e, he, hdiagnostics⟩ := hreports.diagnostics
      refine ⟨e, ?_, he.message, ?_⟩
      · rw [hdiagnostics]
        simp
      · rcases he.code with ⟨-, hcode⟩ | ⟨⟨command, hcause⟩, -⟩
        · exact hcode
        · cases hcause
  · rw [hmissing.asked, if_neg hsome, Option.map_some, List.length_map, hdeclarations]

/-! ### A directory that cannot be looked for -/

/-- A name of one byte more than a name can have. -/
def overlongName : Text := List.replicate 256 'a'

/-- A configuration whose only source directory has that name. -/
def overlongConfiguration : Text :=
  "\x7b\x22sources\x22: \x22".toList ++ (overlongName ++ "\x22\x7d".toList)

/-- A project with that configuration and nothing else. -/
def filesWithOverlongName : FileSystem :=
  .ofTree
    (.directory [("rescript.json".toList, .file (Utf8.encode overlongConfiguration))])
    ⟨.root, []⟩

theorem readConfiguration_overlongName :
    filesWithOverlongName.readConfiguration ⟨.root, ["rescript.json".toList]⟩ =
      (Json.read overlongConfiguration).mapError
        (Fault.ofConfiguration ⟨.root, ["rescript.json".toList]⟩) := by
  have hread : filesWithOverlongName.read ⟨.root, ["rescript.json".toList]⟩ =
      ((Utf8.decode (Utf8.encode overlongConfiguration)).mapError ReadFault.undecodable).map
        Text.unifyNewlines := rfl
  have hlines : Text.unifyNewlines overlongConfiguration = overlongConfiguration := by
    decide +kernel
  rw [FileSystem.readConfiguration, hread, Utf8.decode_encode, Except.mapError, Except.map, hlines]

/-- No account is given of the project, although its configuration can be read. -/
theorem no_account_of_overlong_name :
    filesWithOverlongName.configuration? ⟨.root, []⟩ =
        .ok (some ⟨.root, ["rescript.json".toList]⟩) ∧
      (∃ contents, filesWithOverlongName.readConfiguration ⟨.root, ["rescript.json".toList]⟩ =
        .ok contents) ∧
      ∀ oracle, (bindings filesWithOverlongName oracle ⟨.root, []⟩).report =
        .error (.system (.about .nameTooLong ('/' :: overlongName))) := by
  have hfound : filesWithOverlongName.configuration? ⟨.root, []⟩ =
      .ok (some ⟨.root, ["rescript.json".toList]⟩) := rfl
  have hentries : (Json.read overlongConfiguration).toOption.map SourceEntry.ofConfiguration =
      some [⟨overlongName, false⟩] := by
    decide +kernel
  have hlisted : filesWithOverlongName.sourceDirectories ⟨.root, []⟩ [⟨overlongName, false⟩] =
      .ok [⟨.root, [overlongName]⟩] := by
    decide +kernel
  have hrefused : filesWithOverlongName.modules [⟨.root, [overlongName]⟩] =
      .error (.system (.about .nameTooLong ('/' :: overlongName))) := by
    decide +kernel
  cases hjson : Json.read overlongConfiguration with
  | error fault =>
    rw [hjson] at hentries
    cases hentries
  | ok contents =>
    rw [hjson] at hentries
    have hparsed := readConfiguration_overlongName
    rw [hjson] at hparsed
    have hcontents : SourceEntry.ofConfiguration contents = [⟨overlongName, false⟩] :=
      Option.some.inj hentries
    refine ⟨hfound, ⟨contents, hparsed⟩, fun oracle => ?_⟩
    obtain ⟨events, hbindings⟩ := bindings_of_unwalkable hfound hparsed
      (.modules (hcontents ▸ hlisted) hrefused) oracle
    rw [hbindings]
    rfl

end ForeignBindings.Check
