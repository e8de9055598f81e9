import ForeignBindings.Proofs.Check.Stages
import ForeignBindings.Proofs.Compiler.Consultation
import ForeignBindings.Proofs.Files.Nested

/-! Faults of a check.  With an oracle that fails only as an oracle, what ends a check without a
report is a path that cannot be looked at in the search for a configuration, an obstacle to a walk,
or a configuration that is not UTF-8, has a number of too many digits or is nested too deep;
everything else that is wrong with a project becomes a diagnostic.  Options can also name a start
with a null character, from which there is no search. -/

namespace ForeignBindings

/-- The oracle gives verdicts, or fails as an oracle. -/
def Oracle.Answers (oracle : Oracle) : Prop :=
  ∀ root requests, (∃ verdicts, (oracle root requests).outcome = .ok verdicts) ∨
    ∃ failure, (oracle root requests).outcome = .error (.failure failure) ∧ failure.IsOfOracle

/-- What stops the check of the project that a directory belongs to. -/
inductive Stops (fs : FileSystem) (start : Path) : Fault → Prop
  | search {e : SystemError} (hrefused : fs.configuration? start = .error e) :
    Stops fs start (.system e)
  | undecodable {configuration : Path} {e : Utf8.DecodeError}
    (hfound : fs.configuration? start = .ok (some configuration))
    (hread : fs.read configuration = .error (.undecodable e)) :
    Stops fs start (.undecodable e)
  | tooManyDigits {configuration : Path} {text : Text} {e : Literal.TooManyDigits}
    (hfound : fs.configuration? start = .ok (some configuration))
    (hread : fs.read configuration = .ok text)
    (hparse : Json.read text = .error (.tooManyDigits e)) :
    Stops fs start (.tooManyDigits e)
  | tooDeep {configuration : Path} {text : Text} {compound : Json.Compound}
    (hfound : fs.configuration? start = .ok (some configuration))
    (hread : fs.read configuration = .ok text)
    (hparse : Json.read text = .error (.tooDeep compound)) :
    Stops fs start (.tooDeep compound)
  | walk {configuration : Path} {contents : Json} {e : WalkFault}
    (hfound : fs.configuration? start = .ok (some configuration))
    (hparsed : fs.readConfiguration configuration = .ok contents)
    (hrefused : Check.Unwalkable fs configuration.parent contents e) : Stops fs start (.ofWalk e)

namespace Check

variable {fs : FileSystem} {oracle : Oracle} {root start : Path} {fault : Fault}

theorem code_of_isOfOracle {failure : Failure} (h : failure.IsOfOracle) :
    ∃ code, Cause.code? failure.cause = some code := by
  obtain ⟨message, location, cause⟩ := failure
  cases cause with
  | oracle command => exact ⟨_, rfl⟩
  | oracleOutput command => exact ⟨_, rfl⟩
  | general => cases h
  | configuration path => cases h

/-- The declarations of a project always get a report. -/
theorem report_judged_ok (h : oracle.Answers) (scan : SourceScan) :
    ∃ found, (judged oracle root scan).report =
      .ok (.ofDiagnostics scan.declarations.length (scan.diagnostics ++ found)) := by
  by_cases hnone : scan.declarations = []
  · refine ⟨[], ?_⟩
    rw [judged, if_pos (by simp [hnone]), hnone, List.append_nil]
    rfl
  · rw [report_judged hnone]
    rcases h root (scan.declarations.map Declaration.request) with
      ⟨verdicts, hok⟩ | ⟨failure, hfailed, hfailure⟩
    · exact ⟨judgements _ verdicts, by rw [hok]; rfl⟩
    · obtain ⟨code, hcode⟩ := code_of_isOfOracle hfailure
      have hfound := (@conclude_eq_ok_iff root (scan.declarations.map Declaration.request) _ _).mpr
        (.inr ⟨failure, code, hfailed, hcode, rfl⟩)
      exact ⟨_, by rw [hfound]; rfl⟩

theorem report_of_selects (h : oracle.Answers) {configuration : Path} {contents : Json}
    {directories files : List Path}
    (hselects : Selects fs start configuration contents directories files) :
    ∃ found, (bindings fs oracle start).report = .ok (.ofDiagnostics (declared fs files).length
      ((scanFiles fs files).diagnostics ++ found)) := by
  obtain ⟨events, hjudged⟩ := bindings_of_selects hselects oracle
  rw [hjudged]
  exact report_judged_ok h (scanFiles fs files)

/-! ### Configurations -/

/-- Why a configuration has no contents: it cannot be read, is not UTF-8, or is not JSON. -/
theorem readConfiguration_eq_error_iff {configuration : Path} :
    fs.readConfiguration configuration = .error fault ↔
      (∃ e, fs.read configuration = .error (.system e) ∧
        .failure (.ofConfiguration ("Cannot read ".toList ++ configuration.name ++ ": ".toList ++
          e.message) (some configuration.text)) = fault) ∨
      (∃ e, fs.read configuration = .error (.undecodable e) ∧ .undecodable e = fault) ∨
      ∃ text e, fs.read configuration = .ok text ∧ Json.read text = .error e ∧
        Fault.ofConfiguration configuration e = fault := by
  rw [FileSystem.readConfiguration]
  rcases fs.read configuration with (e | e) | text
  · simp
  · simp
  · simp [mapError_eq_error_iff]

theorem cause_of_readConfiguration {configuration : Path} {failure : Failure}
    (h : fs.readConfiguration configuration = .error (.failure failure)) :
    failure.cause = .configuration (some configuration.text) := by
  rcases readConfiguration_eq_error_iff.mp h with ⟨e, -, h⟩ | ⟨e, -, h⟩ | ⟨text, e, -, -, h⟩
  · obtain rfl := Fault.failure.inj h
    rfl
  · cases h
  · cases e with
    | malformed fault line column =>
      obtain rfl := Fault.failure.inj h
      rfl
    | tooManyDigits e => cases h
    | tooDeep compound => cases h

/-- A configuration that stops the check is not UTF-8, or its JSON has too many digits or too many
levels. -/
theorem stops_of_readConfiguration {configuration : Path}
    (hfound : fs.configuration? start = .ok (some configuration))
    (h : fs.readConfiguration configuration = .error fault)
    (hfault : ∀ failure, fault ≠ .failure failure) : Stops fs start fault := by
  rcases readConfiguration_eq_error_iff.mp h with ⟨e, -, rfl⟩ | ⟨e, hread, rfl⟩ |
    ⟨text, e, hread, hparse, rfl⟩
  · exact absurd rfl (hfault _)
  · exact .undecodable hfound hread
  · cases e with
    | malformed fault line column => exact absurd rfl (hfault _)
    | tooManyDigits e => exact .tooManyDigits hfound hread hparse
    | tooDeep compound => exact .tooDeep hfound hread hparse

theorem above_of_readConfiguration {configuration : Path}
    (hfound : fs.configuration? start = .ok (some configuration))
    (h : fs.readConfiguration configuration = .error fault) :
    Project.above fs start = .error fault := by
  rw [Project.above, hfound]
  dsimp only
  rw [Project.ofConfiguration, h]
  rfl

theorem report_of_above_error (h : Project.above fs start = .error fault)
    (hfault : ∀ failure, fault ≠ .failure failure) :
    (bindings fs oracle start).report = .error fault := by
  change (located fs oracle start (Project.above fs start)).report = _
  rw [h]
  cases fault with
  | failure failure => exact absurd rfl (hfault failure)
  | _ => rfl

/-- The report about a configuration that cannot be used. -/
theorem report_of_configuration {configuration : Path} {failure : Failure}
    (hfound : fs.configuration? start = .ok (some configuration))
    (h : fs.readConfiguration configuration = .error (.failure failure)) :
    (bindings fs oracle start).report =
      .ok (onlyError failure.message configuration.text configurationCode) := by
  change (located fs oracle start (Project.above fs start)).report = _
  rw [above_of_readConfiguration hfound h]
  have hcause := cause_of_readConfiguration h
  obtain ⟨message, location, cause⟩ := failure
  obtain rfl : cause = .configuration (some configuration.text) := hcause
  -- an empty path would be shown as the start
  have htext := FileSystem.text_ne_nil_of_configuration? hfound
  rw [located]
  · rfl
  · exact htext

/-! ### Stops -/

theorem report_of_stops (h : Stops fs start fault) :
    (bindings fs oracle start).report = .error fault := by
  cases h with
  | search hrefused =>
    apply report_of_above_error ?_ (by simp)
    rw [Project.above, hrefused]
  | undecodable hfound hread =>
    apply report_of_above_error (above_of_readConfiguration hfound ?_) (by simp)
    exact readConfiguration_eq_error_iff.mpr (.inr (.inl ⟨_, hread, rfl⟩))
  | tooManyDigits hfound hread hparse =>
    apply report_of_above_error (above_of_readConfiguration hfound ?_) (by simp)
    exact readConfiguration_eq_error_iff.mpr (.inr (.inr ⟨_, _, hread, hparse, rfl⟩))
  | tooDeep hfound hread hparse =>
    apply report_of_above_error (above_of_readConfiguration hfound ?_) (by simp)
    exact readConfiguration_eq_error_iff.mpr (.inr (.inr ⟨_, _, hread, hparse, rfl⟩))
  | walk hfound hparsed hrefused =>
    obtain ⟨events, hbindings⟩ := bindings_of_unwalkable hfound hparsed hrefused oracle
    rw [hbindings]
    rfl

/-- Stage by stage, a stage that does not stop the check leads to a report or to the next one. -/
theorem report_or_stops (hanswers : oracle.Answers) (fs : FileSystem) (start : Path) :
    (∃ report, (bindings fs oracle start).report = .ok report) ∨ ∃ fault, Stops fs start fault := by
  rcases hfound : fs.configuration? start with e | _ | configuration
  · exact .inr ⟨_, .search hfound⟩
  · left
    change ∃ report, (located fs oracle start (Project.above fs start)).report = .ok report
    rw [Project.above, hfound]
    exact ⟨_, rfl⟩
  cases hparsed : fs.readConfiguration configuration with
  | error fault =>
    by_cases hfailure : ∃ failure, fault = .failure failure
    · obtain ⟨failure, rfl⟩ := hfailure
      exact .inl ⟨_, report_of_configuration hfound hparsed⟩
    · exact .inr ⟨fault, stops_of_readConfiguration hfound hparsed (not_exists.mp hfailure)⟩
  | ok contents =>
    obtain ⟨directories, files, hselects⟩ | ⟨e, hrefused⟩ := selects_or_unwalkable hfound hparsed
    · obtain ⟨found, hreport⟩ := report_of_selects hanswers hselects
      exact .inl ⟨_, hreport⟩
    · exact .inr ⟨_, .walk hfound hparsed hrefused⟩

theorem report_eq_error_iff (hanswers : oracle.Answers) :
    (bindings fs oracle start).report = .error fault ↔ Stops fs start fault := by
  constructor
  · intro h
    rcases report_or_stops hanswers fs start with ⟨report, hreport⟩ | ⟨fault', hstops⟩
    · rw [h] at hreport
      cases hreport
    · obtain rfl : fault' = fault :=
        Except.error.inj ((report_of_stops hstops).symm.trans h)
      exact hstops
  · exact report_of_stops

theorem blocks_of_walk {search : Search} {levels : Nat} {path : Path} {fault : WalkFault}
    {e : SystemError} (h : fs.walk search levels path = .error fault)
    (he : Fault.ofWalk fault = .system e) : e.refusal.Blocks := by
  cases FileSystem.obstacle_of_walk h with
  | directory _ hnames =>
    obtain rfl := Fault.system.inj he
    exact FileSystem.blocks_of_names hnames
  | entry _ _ _ hkind =>
    obtain rfl := Fault.system.inj he
    exact FileSystem.blocks_of_hasDirectory hkind
  | depth => cases he

theorem blocks_of_stops {e : SystemError} (h : Stops fs start (.system e)) : e.refusal.Blocks := by
  generalize hfault : Fault.system e = fault at h
  cases h with
  | search hrefused =>
    obtain rfl := Fault.system.inj hfault
    exact FileSystem.blocks_of_firstFile? hrefused
  | walk _ _ hrefused =>
    cases hrefused with
    | directories hrefused =>
      obtain ⟨entry, -, hentry⟩ := flatMapM_error (map_error_iff.mp hrefused)
      exact blocks_of_walk (SourceEntry.directories_eq_error hentry) hfault.symm
    | modules _ hrefused =>
      obtain ⟨directory, -, hdirectory⟩ := flatMapM_error (map_error_iff.mp hrefused)
      exact blocks_of_walk hdirectory hfault.symm
  | undecodable | tooManyDigits | tooDeep => cases hfault

/-- The path from which options start a search has a null character. -/
def NullInStart (options : Options) (workingDirectory : Path) : Prop :=
  ((options.base.getD workingDirectory).join
    (options.directory.getD (.ofText []))).hasNull = true

theorem report_of_nullInStart {host : Host} {options : Options}
    (h : NullInStart options host.files.directory) :
    (run host options).report = .error .nullInPath := by
  have hstart : options.start host.files.directory = .error .nullInPath := by
    rw [NullInStart] at h
    rw [Options.start, Path.resolve?, if_pos h]
  rw [run, hstart]
  rfl

theorem mem_scanFiles {files : List Path} {file : Path} (hfile : file ∈ files) {e : ReadFault}
    (h : fs.read file = .error e) :
    .aboutFile .error ("Cannot read source file: ".toList ++ e.message) file.text unreadableCode ∈
      (scanFiles fs files).diagnostics := by
  refine List.mem_flatMap.mpr ⟨scanFile fs file, List.mem_map_of_mem hfile, ?_⟩
  rw [scanFile, FileSystem.declarations, h]
  exact List.mem_cons_self

/-- What a check says about a broken project.  Only what `Stops` names stops it, where the refusals
are those of names that are too long or that are not permitted; a configuration that cannot be read
or is not JSON is the only error in the report; every source file that cannot be read or is not
UTF-8 is an error in it; and from a start with a null character there is no report. -/
theorem report_of_broken_project (hanswers : oracle.Answers) (fs : FileSystem) (start : Path) :
    (∀ fault, (bindings fs oracle start).report = .error fault ↔ Stops fs start fault) ∧
    (∀ e, Stops fs start (.system e) → e.refusal.Blocks) ∧
    (∀ configuration failure, fs.configuration? start = .ok (some configuration) →
      fs.readConfiguration configuration = .error (.failure failure) →
      (bindings fs oracle start).report =
        .ok (onlyError failure.message configuration.text configurationCode)) ∧
    (∀ configuration contents directories files,
      Selects fs start configuration contents directories files →
      ∀ file ∈ files, ∀ e, fs.read file = .error e →
        ∃ report, (bindings fs oracle start).report = .ok report ∧
          .aboutFile .error ("Cannot read source file: ".toList ++ e.message) file.text
            unreadableCode ∈ report.diagnostics) ∧
    ∀ host options, NullInStart options host.files.directory →
      (run host options).report = .error .nullInPath := by
  refine ⟨fun _ => report_eq_error_iff hanswers, fun _ => blocks_of_stops,
    fun _ _ => report_of_configuration, ?_, fun _ _ => report_of_nullInStart⟩
  intro configuration contents directories files hselects file hfile e hread
  obtain ⟨found, hreport⟩ := report_of_selects hanswers hselects
  exact ⟨_, hreport, List.mem_append_left _ (mem_scanFiles hfile hread)⟩

/-! ### A configuration that is not UTF-8 -/

/-- A directory with nothing but a configuration of the given bytes. -/
def filesWithConfiguration (bytes : List UInt8) : FileSystem :=
  .ofTree (.directory [("rescript.json".toList, .file bytes)]) ⟨.root, []⟩

/-- The same directory where nothing may be read. -/
def lockedConfiguration : FileSystem :=
  { filesWithConfiguration [] with permits := fun access _ => access != .read }

/-- The oracle that accepts everything. -/
def accepting : Oracle := fun _ requests => ⟨.ok (requests.map fun _ => .assignable), [], []⟩

theorem answers_accepting : accepting.Answers :=
  fun _ _ => .inl ⟨_, rfl⟩

theorem read_configuration (bytes : List UInt8) :
    (filesWithConfiguration bytes).read ⟨.root, ["rescript.json".toList]⟩ =
      ((Utf8.decode bytes).mapError .undecodable).map Text.unifyNewlines :=
  rfl

/-- A configuration that is no JSON, and one that may not be read. -/
theorem report_of_empty_configuration :
    (bindings (filesWithConfiguration []) accepting ⟨.root, []⟩).report =
      .ok (onlyError
        "Invalid JSON in rescript.json: Expecting value (line 1, column 1)".toList
        "/rescript.json".toList configurationCode) ∧
    (bindings lockedConfiguration accepting ⟨.root, []⟩).report =
      .ok (onlyError
        "Cannot read rescript.json: [Errno 13] Permission denied: '/rescript.json'".toList
        "/rescript.json".toList configurationCode) := by
  have hread : (filesWithConfiguration []).read ⟨.root, ["rescript.json".toList]⟩ = .ok [] := by
    rw [read_configuration, Utf8.decode, Utf8.decodeFrom]
    rfl
  have hparsed : (filesWithConfiguration []).readConfiguration
      ⟨.root, ["rescript.json".toList]⟩ = .error (.failure (.ofConfiguration
        "Invalid JSON in rescript.json: Expecting value (line 1, column 1)".toList
        (some "/rescript.json".toList))) := by
    rw [FileSystem.readConfiguration, hread]
    rfl
  have hlocked : lockedConfiguration.readConfiguration
      ⟨.root, ["rescript.json".toList]⟩ = .error (.failure (.ofConfiguration
        "Cannot read rescript.json: [Errno 13] Permission denied: '/rescript.json'".toList
        (some "/rescript.json".toList))) := by
    rfl
  exact ⟨(report_of_broken_project answers_accepting _ _).2.2.1 _ _ rfl hparsed,
    (report_of_broken_project answers_accepting _ _).2.2.1 _ _ rfl hlocked⟩

/-- A byte that is not UTF-8 stops the check. -/
theorem report_of_undecodable_configuration :
    accepting.Answers ∧
      (bindings (filesWithConfiguration [0xff]) accepting ⟨.root, []⟩).report =
        .error (.undecodable ⟨.invalidStart, 0xff, 0, 1⟩) := by
  have hread : (filesWithConfiguration [0xff]).read ⟨.root, ["rescript.json".toList]⟩ =
      .error (.undecodable ⟨.invalidStart, 0xff, 0, 1⟩) := by
    rw [read_configuration, Utf8.decode, Utf8.decodeFrom]
    rfl
  exact ⟨answers_accepting, report_of_stops (.undecodable rfl hread)⟩

end Check

end ForeignBindings
