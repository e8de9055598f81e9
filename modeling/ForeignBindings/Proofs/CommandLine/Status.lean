import ForeignBindings.CommandLine.Run
import ForeignBindings.Proofs.Check.Success

/-! The status of a check.  It is zero exactly if everything was found and the compiler had nothing
to say on the lines of the entries.  These are the lines that the compiler sees, unless a
declaration leaks a line feed; then a message on a line about a declaration can be lost. -/

namespace ForeignBindings

/-- What a check tells the compiler. -/
def Options.setup (options : Options) : Compiler.Setup :=
  ⟨options.command, options.configurationPath?, options.limit⟩

theorem Check.run_of_start {host : Host} {options : Options} {start : Path}
    (h : options.start host.files.directory = .ok start) :
    Check.run host options = bindings host.files (Compiler.oracle host options.setup) start := by
  rw [Check.run, h]
  rfl

theorem Check.passes_run_iff {host : Host} {options : Options} :
    (Check.run host options).Passes ↔
      ∃ start configuration contents directories files,
        options.start host.files.directory = .ok start ∧
        Selects host.files start configuration contents directories files ∧
        Clean host options.setup Program.IsEntryLine configuration.parent files := by
  cases hstart : options.start host.files.directory with
  | error fault =>
    rw [Check.run, hstart]
    simp
  | ok start =>
    rw [Check.run_of_start hstart, passes_bindings_iff]
    simp

namespace CommandLine

variable {palette : Palette} {host : Host} {level : Importance} {a : CheckArguments}
  {outcome : Outcome}

theorem status_checkOutput_eq_zero_iff :
    (checkOutput palette host level a outcome).status = 0 ↔ outcome.Passes := by
  rw [checkOutput, Outcome.Passes]
  cases outcome.report with
  | error fault => simp
  | ok report => cases report.hasErrors <;> simp

theorem status_checkOutput_le_one (palette : Palette) (host : Host) (level : Importance)
    (a : CheckArguments) (outcome : Outcome) :
    (checkOutput palette host level a outcome).status ≤ 1 := by
  rw [checkOutput]
  cases outcome.report with
  | error fault => exact Nat.le_refl 1
  | ok report =>
    dsimp only
    split <;> omega

theorem check_of_options {options : Options} (h : checkOptions host a = .ok options) :
    check palette host level a = ⟨.ok (checkOutput palette host level a (Check.run host options)),
      (Check.run host options).invocations⟩ := by
  rw [check, h]

/-- The check ends with status zero. -/
def Succeeds (palette : Palette) (host : Host) (level : Importance) (a : CheckArguments) : Prop :=
  ∃ output, (check palette host level a).outcome = .ok output ∧ output.status = 0

theorem succeeds_iff :
    Succeeds palette host level a ↔
      ∃ options, checkOptions host a = .ok options ∧ (Check.run host options).Passes := by
  rw [Succeeds]
  cases hoptions : checkOptions host a with
  | error fault =>
    rw [check, hoptions]
    simp [quiet]
  | ok options =>
    rw [check_of_options hoptions]
    simp [status_checkOutput_eq_zero_iff]

/-- Once source files are selected, the check succeeds exactly if everything is found in them. -/
theorem succeeds_of_selects {options : Options} {start configuration : Path} {contents : Json}
    {directories files : List Path} (hoptions : checkOptions host a = .ok options)
    (hstart : options.start host.files.directory = .ok start)
    (hselects : Check.Selects host.files start configuration contents directories files) :
    Succeeds palette host level a ↔
      Check.Clean host options.setup Program.IsEntryLine configuration.parent files := by
  rw [← Check.passes_bindings_of_selects hselects, ← Check.run_of_start hstart, succeeds_iff]
  constructor
  · rintro ⟨options', hoptions', hpasses⟩
    obtain rfl := Except.ok.inj (hoptions.symm.trans hoptions')
    exact hpasses
  · exact fun hpasses => ⟨options, hoptions, hpasses⟩

/-- Once source files are selected, the compiler is asked about what they declare, if anything. -/
theorem invocations_of_selects {options : Options} {start configuration : Path} {contents : Json}
    {directories files : List Path} (hoptions : checkOptions host a = .ok options)
    (hstart : options.start host.files.directory = .ok start)
    (hselects : Check.Selects host.files start configuration contents directories files)
    (hsome : Check.declared host.files files ≠ []) :
    (check palette host level a).invocations =
      (Compiler.consult host options.setup configuration.parent
        ((Check.declared host.files files).map Declaration.request)).consultation.invocations := by
  obtain ⟨events, hjudged⟩ :=
    Check.bindings_of_selects hselects (Compiler.oracle host options.setup)
  rw [check_of_options hoptions, Check.run_of_start hstart, hjudged]
  exact Check.invocations_judged hsome

/-- Declarations that no compiler that ended well has judged lead to an error. -/
theorem fails_of_selects {options : Options} {start configuration : Path} {contents : Json}
    {directories files : List Path} (hoptions : checkOptions host a = .ok options)
    (hstart : options.start host.files.directory = .ok start)
    (hselects : Check.Selects host.files start configuration contents directories files)
    (hsome : Check.declared host.files files ≠ [])
    (hfailed : ∀ invocation ∈ (check palette host level a).invocations, ∀ output errors,
      host.launch invocation ≠ .finished output errors 0) :
    (∃ output, (check palette host level a).outcome = .ok output ∧ output.status = 1) ∧
      Check.FailsConsulting (Check.run host options) := by
  obtain ⟨events, hjudged⟩ :=
    Check.bindings_of_selects hselects (Compiler.oracle host options.setup)
  have hrun := (Check.run_of_start hstart).trans hjudged
  rw [check_of_options hoptions] at hfailed ⊢
  rw [hrun] at hfailed
  have hfails : Check.FailsConsulting (Check.run host options) := by
    rw [hrun]
    exact Check.failsConsulting_judged_compiler hsome hfailed
  have hstatus : (checkOutput palette host level a (Check.run host options)).status ≠ 0 :=
    mt status_checkOutput_eq_zero_iff.mp (Check.not_passes_of_failsConsulting hfails)
  have hle := status_checkOutput_le_one palette host level a (Check.run host options)
  exact ⟨⟨_, rfl, by omega⟩, hfails⟩

/-- A check succeeds exactly if source files are selected and everything is found in them, with no
message on a line of an entry.  If no declaration leaks a line feed, these are all lines about
declarations that the compiler sees.  Declarations that no compiler that ended well has judged make
the check fail, by a fault or by an error in its report. -/
theorem check_succeeds_iff (palette : Palette) (host : Host) (level : Importance)
    (a : CheckArguments) :
    (Succeeds palette host level a ↔
      ∃ options start configuration contents directories files,
        checkOptions host a = .ok options ∧ options.start host.files.directory = .ok start ∧
        Check.Selects host.files start configuration contents directories files ∧
        Check.Clean host options.setup Program.IsEntryLine configuration.parent files) ∧
    ∀ options start configuration contents directories files,
      checkOptions host a = .ok options → options.start host.files.directory = .ok start →
      Check.Selects host.files start configuration contents directories files →
      ((∀ d ∈ Check.declared host.files files, ¬d.request.Leaks) →
        (Succeeds palette host level a ↔
          Check.Clean host options.setup Program.IsRequestLine configuration.parent files)) ∧
      (Check.declared host.files files ≠ [] →
        (∀ invocation ∈ (check palette host level a).invocations, ∀ output errors,
          host.launch invocation ≠ .finished output errors 0) →
        (∃ output, (check palette host level a).outcome = .ok output ∧ output.status = 1) ∧
          Check.FailsConsulting (Check.run host options)) := by
  constructor
  · constructor
    · intro hsucceeds
      obtain ⟨options, hoptions, hpasses⟩ := succeeds_iff.mp hsucceeds
      obtain ⟨start, configuration, contents, directories, files, hstart, hselects, hclean⟩ :=
        Check.passes_run_iff.mp hpasses
      exact ⟨options, start, configuration, contents, directories, files, hoptions, hstart,
        hselects, hclean⟩
    · rintro ⟨options, start, configuration, contents, directories, files, hoptions, hstart,
        hselects, hclean⟩
      exact (succeeds_of_selects hoptions hstart hselects).mpr hclean
  · intro options start configuration contents directories files hoptions hstart hselects
    refine ⟨fun hplain => ?_, fails_of_selects hoptions hstart hselects⟩
    rw [succeeds_of_selects hoptions hstart hselects, Check.clean_isRequestLine_iff hplain]

/-! ### Checks with each end -/

/-- A project with one source file, and a compiler that ends with the given status and an answer
about the file of the program. -/
def hostOf (source : String) (answer : Text → Text) (status : Int) : Host :=
  ⟨.ofTree
      (.directory
        [("A.res".toList, .file source.toUTF8.toList),
         ("rescript.json".toList, .file "\x7b\x22sources\x22: \x22.\x22\x7d".toUTF8.toList)])
      ⟨.root, []⟩,
    [], some "tsc".toList, fun invocation => .finished (answer invocation.program.name) [] status,
    [['x']], fun _ => .accepts⟩

/-- The one source file of the project. -/
def sourceFile : Path := ⟨.root, ["A.res".toList]⟩

/-- What the project declares. -/
def declaredIn (source : String) : List Declaration :=
  Check.declared (hostOf source id 0).files [sourceFile]

theorem selects_hostOf (source : String) (answer : Text → Text) (status : Int) : ∃ contents,
    Check.Selects (hostOf source answer status).files ⟨.root, []⟩
      ⟨.root, ["rescript.json".toList]⟩ contents [⟨.root, []⟩] [sourceFile] := by
  have hentries : ((hostOf "" id 0).files.readConfiguration
      ⟨.root, ["rescript.json".toList]⟩).toOption.map SourceEntry.ofConfiguration =
      some [⟨['.'], false⟩] := by
    decide +kernel
  exact Check.exists_selects rfl hentries rfl rfl

/-- The compiler is started for what the project declares, and answers. -/
theorem started_hostOf {source : String} (answer : Text → Text) (status : Int)
    (h : declaredIn source ≠ []) : ∃ invocation,
    (Compiler.consult (hostOf source answer status) (Options.setup {}) ⟨.root, []⟩
        ((declaredIn source).map Declaration.request)).consultation.invocations = [invocation] ∧
      invocation.program.name = ".bindcheck-x.ts".toList ∧
      (hostOf source answer status).launch invocation =
        .finished (answer ".bindcheck-x.ts".toList) [] status := by
  have hstarted : ∃ invocation, (Compiler.consult (hostOf source answer status) (Options.setup {})
      ⟨.root, []⟩ ((declaredIn source).map Declaration.request)).consultation.invocations =
        [invocation] ∧
      invocation.program.name = ".bindcheck-x.ts".toList ∧
      invocation.words =
        Compiler.fullCommand ["tsc".toList] ⟨.root, [".bindcheck-x.json".toList]⟩ := by
    rw [Compiler.consult, if_neg (by simpa using h)]
    exact ⟨_, rfl, rfl, rfl⟩
  obtain ⟨invocation, hinvocations, hname, hwords⟩ := hstarted
  refine ⟨invocation, hinvocations, hname, ?_⟩
  have hlaunch : (hostOf source answer status).launch invocation =
      .finished (answer invocation.program.name) [] status := by
    apply Host.launch_of_plain
    rw [hwords]
    decide
  rw [hlaunch, hname]

/-- The source file can be read, and the messages in the answer are not on the lines. -/
theorem clean_hostOf {source : String} {answer : Text → Text} {messages : List CompilerMessage}
    {lines : List Request → Nat → Prop} (hdeclared : declaredIn source ≠ [])
    (hmessages : CompilerMessage.all (answer ".bindcheck-x.ts".toList) = .ok messages)
    (hlines : ∀ message ∈ messages,
      ¬lines ((declaredIn source).map Declaration.request) message.line) :
    Check.Clean (hostOf source answer 0) (Options.setup {}) lines ⟨.root, []⟩ [sourceFile] := by
  obtain ⟨invocation, hstarted, -, hlaunch⟩ := started_hostOf answer 0 hdeclared
  rw [← List.append_nil (answer _)] at hmessages
  constructor
  · rw [List.forall_mem_singleton]
    cases htext : (hostOf source answer 0).files.read sourceFile with
    | error fault =>
      -- a file that cannot be read declares nothing
      refine absurd ?_ hdeclared
      change Check.declared (hostOf source answer 0).files [sourceFile] = []
      simp [Check.declared, Check.scanFiles, Check.scanFile, FileSystem.declarations, htext,
        Except.map]
    | ok text => exact ⟨text, rfl⟩
  · exact .inr ⟨invocation, _, [], messages, hstarted, hlaunch, hmessages,
      fun message hmem _ => hlines message hmem⟩

theorem status_of_launch_hostOf {source : String} {answer : Text → Text} {status ended : Int}
    {invocation : Invocation} {output errors : Text}
    (h : (hostOf source answer status).launch invocation = .finished output errors ended) :
    ended = status := by
  rw [Host.launch] at h
  split at h
  · cases h
  · exact (Launch.finished.inj h).2.2.symm

/-- One declaration of an integer. -/
def integerSource : String := "external f: int = \x22f\x22"

theorem declaredIn_integerSource : declaredIn integerSource =
    [⟨['f'], ['f'], "int".toList, .empty, "/A.res".toList, 1, 1⟩] := by
  decide +kernel

theorem not_hasKey_int (key : Text) :
    ¬Typescript.HasKey key (TypeText.describe "int".toList).descriptor := by
  have hprimitive : (match (TypeText.describe "int".toList).descriptor with
      | .primitive _ => true
      | _ => false) = true := by
    decide +kernel
  generalize (TypeText.describe "int".toList).descriptor = descriptor at hprimitive ⊢
  intro hkey
  cases hkey <;> cases hprimitive

theorem not_leaks_integerSource : ∀ d ∈ declaredIn integerSource, ¬d.request.Leaks := by
  rw [declaredIn_integerSource, List.forall_mem_singleton]
  rintro (⟨key, hkey, -⟩ | ⟨segment, hmem, hleaks⟩)
  · exact not_hasKey_int key hkey
  · obtain rfl := List.mem_singleton.mp hmem
    cases hleaks

theorem check_integerSource :
    Succeeds ⟨false⟩ (hostOf integerSource (fun _ => []) 0) .info {} ∧
    (∃ output, (check ⟨false⟩ (hostOf integerSource (fun _ => []) 2) .info {}).outcome =
        .ok output ∧ output.status = 1) ∧
      Check.FailsConsulting (Check.run (hostOf integerSource (fun _ => []) 2) {}) := by
  have hsome : declaredIn integerSource ≠ [] := by
    rw [declaredIn_integerSource]
    exact List.cons_ne_nil _ _
  constructor
  · obtain ⟨contents, hselects⟩ := selects_hostOf integerSource (fun _ => []) 0
    exact (((check_succeeds_iff _ _ _ _).2 _ _ _ _ _ _ rfl rfl hselects).1
      not_leaks_integerSource).mpr (clean_hostOf hsome rfl (by simp))
  · obtain ⟨contents, hselects⟩ := selects_hostOf integerSource (fun _ => []) 2
    refine ((check_succeeds_iff _ _ _ _).2 _ _ _ _ _ _ rfl rfl hselects).2 hsome ?_
    intro invocation _ output errors h
    exact absurd (status_of_launch_hostOf h) (by decide)

/-- Two declarations of integers, the first bound to a name with a line feed at its end. -/
def leakingSource : String := "external f: int = \x22f\n\x22\nexternal g: int = \x22g\x22"

/-- A message about the probe of the second declaration. -/
def mismatchAnswer (name : Text) : Text := name ++ "(10,7): error TS2322: Not assignable.\n".toList

def mismatchMessage : CompilerMessage :=
  ⟨".bindcheck-x.ts".toList, 10, 7, "TS2322".toList, "Not assignable.".toList⟩

theorem all_mismatchAnswer :
    CompilerMessage.all (mismatchAnswer ".bindcheck-x.ts".toList) = .ok [mismatchMessage] :=
  rfl

theorem isRequestLine_mismatchMessage :
    Program.IsRequestLine ((declaredIn leakingSource).map Declaration.request)
      mismatchMessage.line := by
  have hsome : ((declaredIn leakingSource).map Declaration.request)[1]?.isSome = true := by
    decide +kernel
  have hphysical : (Program.ofRequests ((declaredIn leakingSource).map
      Declaration.request)).physicalLine? 10 = some (Program.probeLine ['1']) := by
    decide +kernel
  obtain ⟨r, hr⟩ := Option.isSome_iff_exists.mp hsome
  exact ⟨1, r, .probe, hr, hphysical⟩

theorem not_isEntryLine_mismatchMessage :
    ¬Program.IsEntryLine ((declaredIn leakingSource).map Declaration.request)
      mismatchMessage.line := by
  have hentries : (Program.ofRequests ((declaredIn leakingSource).map
      Declaration.request)).entries =
      [⟨0, "number".toList, 2, 3, 5⟩, ⟨1, "number".toList, 6, 7, 9⟩] := by
    decide +kernel
  rintro ⟨entry, hmem, role, hline⟩
  rw [hentries] at hmem
  simp only [List.mem_cons, List.not_mem_nil, or_false] at hmem
  rcases hmem with rfl | rfl <;> cases role <;> cases hline

/-- The line feed in the first declaration hides a message about the second. -/
theorem succeeds_leakingSource :
    let host := hostOf leakingSource mismatchAnswer 0
    Succeeds ⟨false⟩ host .info {} ∧ ∃ invocation messages message,
      (check ⟨false⟩ host .info {}).invocations = [invocation] ∧
      host.launch invocation = .finished (mismatchAnswer invocation.program.name) [] 0 ∧
      CompilerMessage.all (mismatchAnswer invocation.program.name) = .ok messages ∧
      message ∈ messages ∧ message.isAbout invocation.program.name = true ∧
      Program.IsRequestLine ((declaredIn leakingSource).map Declaration.request)
        message.line := by
  intro host
  have hsome : declaredIn leakingSource ≠ [] := by
    have hlength : (declaredIn leakingSource).length = 2 := by decide +kernel
    exact List.ne_nil_of_length_eq_add_one hlength
  obtain ⟨contents, hselects⟩ := selects_hostOf leakingSource mismatchAnswer 0
  obtain ⟨invocation, hstarted, hname, hlaunch⟩ := started_hostOf mismatchAnswer 0 hsome
  have hinvocations : (check ⟨false⟩ host .info {}).invocations = [invocation] :=
    (invocations_of_selects rfl rfl hselects hsome).trans hstarted
  refine ⟨(succeeds_of_selects rfl rfl hselects).mpr (clean_hostOf hsome all_mismatchAnswer ?_),
    invocation, [mismatchMessage], mismatchMessage, hinvocations, ?_, ?_, List.mem_cons_self, ?_,
    isRequestLine_mismatchMessage⟩
  · rw [List.forall_mem_singleton]
    exact not_isEntryLine_mismatchMessage
  · rw [hlaunch, hname]
  · rw [hname, all_mismatchAnswer]
  · rw [hname]
    decide

end CommandLine

end ForeignBindings
