import ForeignBindings.Proofs.Check.Report
import ForeignBindings.Proofs.Files.Refusal

/-! The stages of a check: a project is found, the source files in it are selected and read, and an
oracle is asked about the declarations in them.  What each stage leads to is said once here, and a
check that gets as far as the source files is that of their declarations. -/

namespace ForeignBindings.Check

variable {fs : FileSystem} {oracle : Oracle} {root start : Path}

/-! ### The project -/

theorem ofConfiguration_eq_ok_iff {configuration : Path} {p : Project} :
    Project.ofConfiguration fs configuration = .ok p ↔
      ∃ contents directories, fs.readConfiguration configuration = .ok contents ∧
        fs.sourceDirectories configuration.parent (SourceEntry.ofConfiguration contents) =
          .ok directories ∧
        ⟨configuration.parent, configuration, directories⟩ = p := by
  simp only [Project.ofConfiguration, bind_eq_ok_iff, mapError_eq_ok_iff]
  constructor
  · rintro ⟨contents, hparsed, directories, hlisted, hp⟩
    exact ⟨contents, directories, hparsed, hlisted, Except.ok.inj hp⟩
  · rintro ⟨contents, directories, hparsed, hlisted, rfl⟩
    exact ⟨contents, hparsed, directories, hlisted, rfl⟩

theorem above_eq_ok_some_iff {p : Project} :
    Project.above fs start = .ok (some p) ↔
      ∃ configuration, fs.configuration? start = .ok (some configuration) ∧
        Project.ofConfiguration fs configuration = .ok p := by
  rw [Project.above]
  rcases fs.configuration? start with e | _ | configuration
  · simp
  · simp
  · cases hproject : Project.ofConfiguration fs configuration with
    | error fault => simp [Except.map, hproject]
    | ok p => simp [Except.map, hproject]

theorem above_of_sourceDirectories {configuration : Path} {contents : Json}
    {directories : List Path} (hfound : fs.configuration? start = .ok (some configuration))
    (hparsed : fs.readConfiguration configuration = .ok contents)
    (hlisted : fs.sourceDirectories configuration.parent
      (SourceEntry.ofConfiguration contents) = .ok directories) :
    Project.above fs start = .ok (some ⟨configuration.parent, configuration, directories⟩) :=
  above_eq_ok_some_iff.mpr ⟨configuration, hfound,
    ofConfiguration_eq_ok_iff.mpr ⟨contents, directories, hparsed, hlisted, rfl⟩⟩

/-! ### The source files -/

/-- What reading source files gives, file by file. -/
def scanFiles (fs : FileSystem) (files : List Path) : SourceScan :=
  let scans := files.map (scanFile fs)
  ⟨scans.flatMap SourceScan.declarations, scans.flatMap SourceScan.diagnostics,
    scans.flatMap SourceScan.events⟩

/-- The declarations in source files. -/
def declared (fs : FileSystem) (files : List Path) : List Declaration :=
  (scanFiles fs files).declarations

theorem scanSources_eq_ok_iff {directories : List Path} {scan : SourceScan} :
    scanSources fs directories = .ok scan ↔
      ∃ files, fs.modules directories = .ok files ∧ scanFiles fs files = scan := by
  rw [scanSources]
  cases fs.modules directories with
  | error e => simp [Except.map]
  | ok files => simp [Except.map, scanFiles]

theorem forall_mem_scanFiles_iff {files : List Path} :
    (∀ d ∈ (scanFiles fs files).diagnostics, d.severity ≠ .error) ↔
      ∀ file ∈ files, ∃ text, fs.read file = .ok text := by
  simp only [scanFiles, ← forall_mem_scanFile_iff, List.forall_mem_flatMap, List.forall_mem_map]

/-! ### The oracle -/

/-- The diagnostics of a consultation: those for its verdicts, or those for a failure of the
oracle. -/
theorem conclude_eq_ok_iff {requests : List Request} {outcome : Except Fault (List Verdict)}
    {diagnostics : List Diagnostic} :
    (conclude root requests outcome).1 = .ok diagnostics ↔
      (∃ verdicts, outcome = .ok verdicts ∧ judgements requests verdicts = diagnostics) ∨
        ∃ failure code, outcome = .error (.failure failure) ∧
          Cause.code? failure.cause = some code ∧
          requests.flatMap warnings ++ [.aboutFile .error failure.message root.text code] =
            diagnostics := by
  cases outcome with
  | ok verdicts => simp [conclude]
  | error fault =>
    cases fault with
    | failure failure =>
      rw [conclude]
      cases hcode : Cause.code? failure.cause with
      | none => simp [hcode]
      | some code => simp [hcode]
    | _ => simp [conclude]

/-- The report for declarations, if there are any: what was said about reading them, and what the
consultation gave. -/
theorem report_judged {scan : SourceScan} (h : scan.declarations ≠ []) :
    (judged oracle root scan).report =
      (conclude root (scan.declarations.map Declaration.request)
        (oracle root (scan.declarations.map Declaration.request)).outcome).1.map fun found =>
          .ofDiagnostics scan.declarations.length (scan.diagnostics ++ found) := by
  rw [judged, if_neg (by simpa using h)]

/-! ### The whole -/

/-- The configuration that is found for a directory, its contents, the directories that it lists,
and the source files that are selected in them. -/
structure Selects (fs : FileSystem) (start configuration : Path) (contents : Json)
    (directories files : List Path) : Prop where
  found : fs.configuration? start = .ok (some configuration)
  parsed : fs.readConfiguration configuration = .ok contents
  listed : fs.sourceDirectories configuration.parent (SourceEntry.ofConfiguration contents) =
    .ok directories
  selected : fs.modules directories = .ok files

/-- The source files are selected by the entries of the configuration. -/
theorem exists_selects {configuration : Path} {entries : List SourceEntry}
    {directories files : List Path} (hfound : fs.configuration? start = .ok (some configuration))
    (hentries : (fs.readConfiguration configuration).toOption.map SourceEntry.ofConfiguration =
      some entries)
    (hlisted : fs.sourceDirectories configuration.parent entries = .ok directories)
    (hselected : fs.modules directories = .ok files) :
    ∃ contents, Selects fs start configuration contents directories files := by
  cases hparsed : fs.readConfiguration configuration with
  | error fault =>
    rw [hparsed] at hentries
    cases hentries
  | ok contents =>
    rw [hparsed] at hentries
    obtain rfl : SourceEntry.ofConfiguration contents = entries := Option.some.inj hentries
    exact ⟨contents, hfound, hparsed, hlisted, hselected⟩

/-- Once source files are selected, the check goes on with what they declare. -/
theorem bindings_of_selects {configuration : Path} {contents : Json}
    {directories files : List Path}
    (h : Selects fs start configuration contents directories files) (oracle : Oracle) :
    ∃ events, bindings fs oracle start =
      preceded events (judged oracle configuration.parent (scanFiles fs files)) := by
  have hproject := above_of_sourceDirectories h.found h.parsed h.listed
  have hscan := scanSources_eq_ok_iff.mpr ⟨files, h.selected, rfl⟩
  rw [bindings, hproject, located, project, hscan]
  exact ⟨_, preceded_preceded ..⟩

/-- The source files of a project cannot all be found: a walk for its directories, or for the source
files below them, fails. -/
inductive Unwalkable (fs : FileSystem) (root : Path) (contents : Json) : WalkFault → Prop
  | directories {fault : WalkFault}
    (hrefused : fs.sourceDirectories root (SourceEntry.ofConfiguration contents) = .error fault) :
    Unwalkable fs root contents fault
  | modules {directories : List Path} {fault : WalkFault}
    (hlisted : fs.sourceDirectories root (SourceEntry.ofConfiguration contents) = .ok directories)
    (hrefused : fs.modules directories = .error fault) : Unwalkable fs root contents fault

/-- The source files of a project are selected, or a walk fails. -/
theorem selects_or_unwalkable {configuration : Path} {contents : Json}
    (hfound : fs.configuration? start = .ok (some configuration))
    (hparsed : fs.readConfiguration configuration = .ok contents) :
    (∃ directories files, Selects fs start configuration contents directories files) ∨
      ∃ fault, Unwalkable fs configuration.parent contents fault := by
  cases hlisted : fs.sourceDirectories configuration.parent
      (SourceEntry.ofConfiguration contents) with
  | error fault => exact .inr ⟨fault, .directories hlisted⟩
  | ok directories =>
    cases hselected : fs.modules directories with
    | error fault => exact .inr ⟨fault, .modules hlisted hselected⟩
    | ok files => exact .inl ⟨directories, files, hfound, hparsed, hlisted, hselected⟩

/-- A walk that fails ends the check, and the oracle is not asked. -/
theorem bindings_of_unwalkable {configuration : Path} {contents : Json} {fault : WalkFault}
    (hfound : fs.configuration? start = .ok (some configuration))
    (hparsed : fs.readConfiguration configuration = .ok contents)
    (h : Unwalkable fs configuration.parent contents fault) (oracle : Oracle) :
    ∃ events, bindings fs oracle start = unasked (.error (.ofWalk fault)) events := by
  cases h with
  | directories hrefused =>
    have hproject : Project.above fs start = .error (.ofWalk fault) := by
      rw [Project.above, hfound]
      dsimp only
      rw [Project.ofConfiguration, hparsed]
      change ((fs.sourceDirectories configuration.parent
        (SourceEntry.ofConfiguration contents)).mapError Fault.ofWalk >>= _).map some = _
      rw [hrefused]
      rfl
    rw [bindings, hproject]
    cases fault <;> exact ⟨_, rfl⟩
  | @modules directories _ hlisted hrefused =>
    have hproject := above_of_sourceDirectories hfound hparsed hlisted
    have hscan : scanSources fs directories = .error fault := map_error_iff.mpr hrefused
    rw [bindings, hproject, located, project, hscan]
    exact ⟨_, rfl⟩

end ForeignBindings.Check
