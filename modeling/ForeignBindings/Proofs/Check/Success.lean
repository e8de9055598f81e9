import ForeignBindings.Proofs.Check.Stages
import ForeignBindings.Proofs.Compiler.Consultation
import Mathlib.Tactic.MkIffOfInductiveProp

/-! Checks that succeed.  Every stage of a check that finds something wrong leaves an error in the
report or ends the check, so a check succeeds exactly if each stage found what it needs: the
configuration, the source files, and a compiler that ended well without a message about any of the
declarations. -/

namespace ForeignBindings

/-- The compiler as an oracle. -/
def Compiler.oracle (host : Host) (setup : Setup) : Oracle :=
  fun root requests => (consult host setup root requests).consultation

theorem Compiler.length_of_oracle_ok {host : Host} {setup : Setup} {root : Path}
    {requests : List Request} {verdicts : List Verdict}
    (h : (oracle host setup root requests).outcome = .ok verdicts) :
    verdicts.length = requests.length :=
  length_of_consult_ok h

namespace Check

variable {fs : FileSystem} {oracle : Oracle} {root start : Path}

theorem passes_judged_iff {scan : SourceScan} :
    (judged oracle root scan).Passes ↔
      (∀ d ∈ scan.diagnostics, d.severity ≠ .error) ∧
        (scan.declarations = [] ∨ ∃ found,
          (conclude root (scan.declarations.map Declaration.request)
            (oracle root (scan.declarations.map Declaration.request)).outcome).1 = .ok found ∧
            ∀ d ∈ found, d.severity ≠ .error) := by
  by_cases hnone : scan.declarations = []
  · rw [judged, if_pos (by simp [hnone])]
    simp [hnone, hasErrors_ofDiagnostics_eq_false]
  · rw [Outcome.Passes, report_judged hnone]
    cases (conclude root _ _).1 with
    | error fault => simp [Except.map, hnone]
    | ok found =>
      simp [Except.map, hnone, hasErrors_ofDiagnostics_eq_false, or_imp, forall_and]

theorem invocations_judged {scan : SourceScan} (h : scan.declarations ≠ []) :
    (judged oracle root scan).invocations =
      (oracle root (scan.declarations.map Declaration.request)).invocations := by
  rw [judged, if_neg (by simpa using h)]

/-- A consultation that gives one verdict for each request passes if all of them are accepted. -/
theorem clean_conclude_iff {requests : List Request} {outcome : Except Fault (List Verdict)}
    (hlength : ∀ verdicts, outcome = .ok verdicts → verdicts.length = requests.length) :
    (∃ found, (conclude root requests outcome).1 = .ok found ∧ ∀ d ∈ found, d.severity ≠ .error) ↔
      ∃ verdicts, outcome = .ok verdicts ∧ ∀ v ∈ verdicts, v = .assignable := by
  simp only [conclude_eq_ok_iff]
  constructor
  · rintro ⟨found, ⟨verdicts, hok, rfl⟩ | ⟨failure, code, -, -, rfl⟩, hclean⟩
    · exact ⟨verdicts, hok, (forall_mem_judgements_iff (hlength verdicts hok)).mp hclean⟩
    · exact absurd rfl (hclean _ (List.mem_append_right _ List.mem_cons_self))
  · rintro ⟨verdicts, hok, hall⟩
    exact ⟨_, .inl ⟨verdicts, hok, rfl⟩,
      (forall_mem_judgements_iff (hlength verdicts hok)).mpr hall⟩

theorem passes_project_iff {p : Project} :
    (project fs oracle p).Passes ↔ ∃ scan, scanSources fs p.sourceDirectories = .ok scan ∧
      (judged oracle p.root scan).Passes := by
  rw [project]
  cases scanSources fs p.sourceDirectories with
  | error e => simp
  | ok scan => simp

theorem passes_located_iff {found : Except Fault (Option Project)} :
    (located fs oracle start found).Passes ↔
      ∃ p, found = .ok (some p) ∧ (project fs oracle p).Passes := by
  rcases found with fault | _ | p
  · cases fault with
    | failure failure =>
      obtain ⟨message, location, cause⟩ := failure
      cases cause <;> simp [located]
    | _ => simp [located]
  · simp [located]
  · simp [located]

/-- Everything is found: each of the files can be read, and if they declare anything, the compiler
ended well and had nothing to say on the lines about the declarations. -/
@[mk_iff]
structure Clean (host : Host) (setup : Compiler.Setup) (lines : List Request → Nat → Prop)
    (root : Path) (files : List Path) : Prop where
  decoded : ∀ file ∈ files, ∃ text, host.files.read file = .ok text
  accepted : declared host.files files = [] ∨
    Compiler.EndsClean host setup root ((declared host.files files).map Declaration.request)
      (lines ((declared host.files files).map Declaration.request))

theorem selects_of_passes (h : (bindings fs oracle start).Passes) :
    ∃ configuration contents directories files,
      Selects fs start configuration contents directories files := by
  rw [bindings, passes_preceded_iff, passes_located_iff] at h
  obtain ⟨p, hproject, hpasses⟩ := h
  obtain ⟨scan, hscan, -⟩ := passes_project_iff.mp hpasses
  obtain ⟨configuration, hfound, hconfiguration⟩ := above_eq_ok_some_iff.mp hproject
  obtain ⟨contents, directories, hparsed, hlisted, rfl⟩ :=
    ofConfiguration_eq_ok_iff.mp hconfiguration
  obtain ⟨files, hselected, -⟩ := scanSources_eq_ok_iff.mp hscan
  exact ⟨configuration, contents, directories, files, hfound, hparsed, hlisted, hselected⟩

/-! ### The compiler as the oracle -/

variable {host : Host} {setup : Compiler.Setup}

theorem passes_judged_compiler_iff {files : List Path} :
    (judged (Compiler.oracle host setup) root (scanFiles host.files files)).Passes ↔
      Clean host setup Program.IsEntryLine root files := by
  rw [passes_judged_iff, forall_mem_scanFiles_iff,
    clean_conclude_iff fun _ => Compiler.length_of_oracle_ok, clean_iff]
  by_cases hnone : (scanFiles host.files files).declarations = []
  · simp [declared, hnone]
  · simp only [declared, hnone, false_or]
    exact and_congr Iff.rfl (Compiler.accepts_iff (by simpa using hnone))

/-- Once source files are selected, the check passes exactly if everything is found in them. -/
theorem passes_bindings_of_selects {configuration : Path} {contents : Json}
    {directories files : List Path}
    (h : Selects host.files start configuration contents directories files) :
    (bindings host.files (Compiler.oracle host setup) start).Passes ↔
      Clean host setup Program.IsEntryLine configuration.parent files := by
  obtain ⟨events, hjudged⟩ := bindings_of_selects h (Compiler.oracle host setup)
  rw [hjudged, passes_preceded_iff, passes_judged_compiler_iff]

/-- The check of the project of a directory passes exactly if source files are selected and
everything is found in them. -/
theorem passes_bindings_iff :
    (bindings host.files (Compiler.oracle host setup) start).Passes ↔
      ∃ configuration contents directories files,
        Selects host.files start configuration contents directories files ∧
          Clean host setup Program.IsEntryLine configuration.parent files := by
  constructor
  · intro hpasses
    obtain ⟨configuration, contents, directories, files, hselects⟩ := selects_of_passes hpasses
    exact ⟨configuration, contents, directories, files, hselects,
      (passes_bindings_of_selects hselects).mp hpasses⟩
  · rintro ⟨configuration, contents, directories, files, hselects, hclean⟩
    exact (passes_bindings_of_selects hselects).mpr hclean

/-- If no declaration leaks a line feed, the lines of the entries are the lines about the
declarations that the compiler sees. -/
theorem clean_isRequestLine_iff {files : List Path}
    (h : ∀ d ∈ declared host.files files, ¬d.request.Leaks) :
    Clean host setup Program.IsRequestLine root files ↔
      Clean host setup Program.IsEntryLine root files := by
  have hlines : Program.IsRequestLine ((declared host.files files).map Declaration.request) =
      Program.IsEntryLine ((declared host.files files).map Declaration.request) :=
    funext fun line => propext (Program.isRequestLine_iff h)
  rw [clean_iff, clean_iff, hlines]

/-! ### Failing compilers -/

/-- The codes of errors that a consultation leads to. -/
def consultationCodes : List Text := [mismatchCode, unresolvedCode, oracleCode, oracleOutputCode]

/-- The outcome is a fault, or a report with an error that a consultation led to. -/
def FailsConsulting (outcome : Outcome) : Prop :=
  (∃ fault, outcome.report = .error fault) ∨
    ∃ report, outcome.report = .ok report ∧ report.hasErrors = true ∧
      ∃ d ∈ report.diagnostics, d.severity = .error ∧ ∃ code ∈ consultationCodes, d.code = some code

theorem not_passes_of_failsConsulting {outcome : Outcome} (h : FailsConsulting outcome) :
    ¬outcome.Passes := by
  rintro ⟨report, hreport, hclean⟩
  rcases h with ⟨fault, hfault⟩ | ⟨report', hreport', herrors, -⟩
  · rw [hfault] at hreport
    cases hreport
  · obtain rfl := Except.ok.inj (hreport'.symm.trans hreport)
    rw [hclean] at herrors
    cases herrors

theorem failsConsulting_of_mem {scan : SourceScan} {found : List Diagnostic} {d : Diagnostic}
    {code : Text} (hsome : scan.declarations ≠ [])
    (hfound : (conclude root (scan.declarations.map Declaration.request)
      (oracle root (scan.declarations.map Declaration.request)).outcome).1 = .ok found)
    (hd : d ∈ found) (herror : d.severity = .error) (hcode : d.code = some code)
    (hmem : code ∈ consultationCodes) :
    FailsConsulting (judged oracle root scan) := by
  rw [FailsConsulting, report_judged hsome, hfound]
  have hd : d ∈ scan.diagnostics ++ found := List.mem_append_right _ hd
  exact .inr ⟨_, rfl, hasErrors_ofDiagnostics.mpr ⟨d, hd, herror⟩, d, hd, herror, code, hmem, hcode⟩

theorem code_mem_consultationCodes {cause : Cause} {code : Text}
    (h : Cause.code? cause = some code) : code ∈ consultationCodes := by
  cases cause with
  | general => cases h
  | configuration path => cases h
  | oracle command =>
    obtain rfl := Option.some.inj h
    simp [consultationCodes]
  | oracleOutput command =>
    obtain rfl := Option.some.inj h
    simp [consultationCodes]

/-- An oracle that gives no verdicts ends the check, or leaves an error with its own code. -/
theorem failsConsulting_of_error {scan : SourceScan} {fault : Fault}
    (hsome : scan.declarations ≠ [])
    (h : (oracle root (scan.declarations.map Declaration.request)).outcome = .error fault) :
    FailsConsulting (judged oracle root scan) := by
  cases hconclude : (conclude root (scan.declarations.map Declaration.request)
      (oracle root (scan.declarations.map Declaration.request)).outcome).1 with
  | error fault =>
    rw [FailsConsulting, report_judged hsome, hconclude]
    exact .inl ⟨fault, rfl⟩
  | ok found =>
    obtain ⟨verdicts, hok, -⟩ | ⟨failure, code, -, hcode, rfl⟩ := conclude_eq_ok_iff.mp hconclude
    · rw [h] at hok
      cases hok
    · exact failsConsulting_of_mem hsome hconclude (List.mem_append_right _ List.mem_cons_self) rfl
        rfl (code_mem_consultationCodes hcode)

theorem failsConsulting_of_verdict {scan : SourceScan} {verdicts : List Verdict} {v : Verdict}
    (hsome : scan.declarations ≠ [])
    (hok : (oracle root (scan.declarations.map Declaration.request)).outcome = .ok verdicts)
    (hlength : verdicts.length = (scan.declarations.map Declaration.request).length)
    (hv : v ∈ verdicts) (hagainst : v ≠ .assignable) :
    FailsConsulting (judged oracle root scan) := by
  have hfound := (@conclude_eq_ok_iff root (scan.declarations.map Declaration.request) _ _).mpr
    (.inl ⟨verdicts, hok, rfl⟩)
  obtain ⟨d, hd, herror, hcode | hcode⟩ := exists_error_of_verdict hlength hv hagainst
  · exact failsConsulting_of_mem hsome hfound hd herror hcode (by simp [consultationCodes])
  · exact failsConsulting_of_mem hsome hfound hd herror hcode (by simp [consultationCodes])

/-- Without a compiler that ends well, declarations lead to an error. -/
theorem failsConsulting_judged_compiler {scan : SourceScan} (hsome : scan.declarations ≠ [])
    (hfailed : ∀ invocation ∈ (judged (Compiler.oracle host setup) root scan).invocations,
      ∀ output errors, host.launch invocation ≠ .finished output errors 0) :
    FailsConsulting (judged (Compiler.oracle host setup) root scan) := by
  rw [invocations_judged hsome] at hfailed
  cases houtcome :
      (Compiler.oracle host setup root (scan.declarations.map Declaration.request)).outcome with
  | error fault => exact failsConsulting_of_error hsome houtcome
  | ok verdicts =>
    have hlength := Compiler.length_of_oracle_ok houtcome
    obtain ⟨invocation, output, errors, status, messages, hstarted, hfinished, -, hsaid, rfl⟩ :=
      Compiler.judged_of_consult_ok (by simpa using hsome) houtcome
    -- verdicts of a compiler that failed are not all favourable, or it would have been silent
    have hstatus : status ≠ 0 := by
      rintro rfl
      exact hfailed invocation (by rw [Compiler.oracle, hstarted]; exact List.mem_cons_self) _ _
        hfinished
    have hsaid := hsaid.resolve_left hstatus
    rw [Ne, ← Program.forall_verdicts_iff] at hsaid
    simp only [Classical.not_forall] at hsaid
    obtain ⟨v, hv, hagainst⟩ := hsaid
    exact failsConsulting_of_verdict hsome houtcome hlength hv hagainst

end Check

end ForeignBindings
