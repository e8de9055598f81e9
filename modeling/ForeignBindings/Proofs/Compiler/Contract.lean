import ForeignBindings.Proofs.Compiler.Consultation
import ForeignBindings.Proofs.Compiler.Judgement
import ForeignBindings.Proofs.Files.Refusal
import ForeignBindings.Proofs.Text.ShellWords

/-! The contract of an oracle: one verdict for each request, in order, or a failure of the oracle.
A start of the compiler finishes, finds no compiler, takes too long, is denied, or fails in some
other way, as it does for words with a null character.  A consultation breaks the contract exactly
if the command line cannot be split or is blank, if the start is denied or fails in some other way,
if the compiler of the project cannot be looked at, or if the root, the time limit or a number in
the output is out of bounds. -/

namespace ForeignBindings

/-- The verdict is one on the request: what it says against the value names the claimed type. -/
inductive Verdict.IsOn (r : Request) : Verdict → Prop
  | assignable : IsOn r .assignable
  | unresolved {detail : Option Text} : IsOn r (.unresolved (some r.expectedType) detail)
  | mismatch {actual detail : Option Text} :
    IsOn r (.mismatch (some r.expectedType) actual detail)

namespace Compiler

/-- There is one verdict for each request, in the order of the requests. -/
structure OnePerRequest (requests : List Request) (verdicts : List Verdict) : Prop where
  length : verdicts.length = requests.length
  each : ∀ (i : Nat) (r : Request), requests[i]? = some r → ∃ v, verdicts[i]? = some v ∧ v.IsOn r

/-- The outcome keeps the contract of an oracle. -/
def Honours (requests : List Request) (outcome : Except Fault (List Verdict)) : Prop :=
  (∃ verdicts, outcome = .ok verdicts ∧ OnePerRequest requests verdicts) ∨
    ∃ failure, outcome = .error (.failure failure) ∧ failure.IsOfOracle

/-- The command line that is asked for: the given one, or that of the environment. -/
def commandLine? (host : Host) (given : Option Text) : Option Text :=
  match given with
  | none | some [] => host.environment.value? Options.commandVariable
  | some line => some line

/-- What escapes from a consultation about requests. -/
inductive Escapes (host : Host) (setup : Setup) (root : Path) (requests : List Request) :
    Fault → Prop
  | unsplit {line : Text} {fault : ShellWords.Fault} (hsome : requests ≠ [])
    (hline : commandLine? host setup.command = some line)
    (hsplit : ShellWords.split line = .error fault) :
    Escapes host setup root requests (.commandLine fault)
  | search {e : SystemError} (hsome : requests ≠ [])
    (hnone : commandLine? host setup.command = none)
    (hrefused : host.files.look (installedIn root) = .error e) :
    Escapes host setup root requests (.system e)
  | nullInRoot {words : List Text} (hsome : requests ≠ [])
    (hcommand : command host root setup.command = .ok words) (hnull : root.hasNull = true) :
    Escapes host setup root requests .nullInPath
  | blank {line : Text} {invocation : Invocation}
    (hline : commandLine? host setup.command = some line)
    (hblank : ∀ c ∈ line, ShellWords.isSeparator c = true)
    (hstarted : (consult host setup root requests).consultation.invocations = [invocation])
    (hlaunch : host.launch invocation = .notFound) :
    Escapes host setup root requests .noCommandWord
  | denied {invocation : Invocation}
    (hstarted : (consult host setup root requests).consultation.invocations = [invocation])
    (hlaunch : host.launch invocation = .denied) :
    Escapes host setup root requests
      (.system (.about .permissionDenied (invocation.words.headD [])))
  | failed {invocation : Invocation} {error : StartError}
    (hstarted : (consult host setup root requests).consultation.invocations = [invocation])
    (hlaunch : host.launch invocation = .failed error) :
    Escapes host setup root requests (.start error)
  | limit {invocation : Invocation} {fault : TimeoutFault}
    (hstarted : (consult host setup root requests).consultation.invocations = [invocation])
    (hlaunch : host.launch invocation = .timedOut) (hbrief : setup.timeout.brief = .error fault) :
    Escapes host setup root requests (.timeout fault)
  | unreadable {invocation : Invocation} {output errors : Text} {status : Int}
    {e : Literal.TooManyDigits}
    (hstarted : (consult host setup root requests).consultation.invocations = [invocation])
    (hlaunch : host.launch invocation = .finished output errors status)
    (hoverflow : CompilerMessage.all (output ++ errors) = .error e) :
    Escapes host setup root requests (.tooManyDigits e)

variable {host : Host} {setup : Setup} {root : Path} {requests : List Request}
  {invocation : Invocation} {given : Option Text} {fault : Fault}

/-! ### Commands -/

theorem command_eq (host : Host) (root : Path) (given : Option Text) :
    command host root given =
      match commandLine? host given with
      | some line => (ShellWords.split line).mapError .commandLine
      | none =>
        match host.files.hasFile (installedIn root), host.compilerOnPath with
        | .error e, _ => .error (.system e)
        | .ok true, _ => .ok [(installedIn root).text]
        | .ok false, none | .ok false, some [] => .error (.failure notInstalled)
        | .ok false, some path => .ok [path] := by
  rcases given with _ | _ | ⟨c, line⟩ <;> rfl

/-- Only a blank command line makes a command without words. -/
theorem command_eq_ok_nil_iff : command host root given = .ok [] ↔
    ∃ line, commandLine? host given = some line ∧
      ∀ c ∈ line, ShellWords.isSeparator c = true := by
  cases hline : commandLine? host given with
  | none =>
    rw [command_eq, hline]
    dsimp only
    split <;> simp
  | some line =>
    rw [command_eq, hline, mapError_eq_ok_iff, ShellWords.split_eq_ok_nil_iff]
    simp

/-- A search for a command that fails does so as an oracle, or a fault escapes. -/
theorem escapes_of_command_error (hsome : requests ≠ [])
    (h : command host root setup.command = .error fault) :
    Escapes host setup root requests fault ∨ fault = .failure notInstalled := by
  cases hline : commandLine? host setup.command with
  | none =>
    rw [command_eq, hline] at h
    dsimp only at h
    split at h
    · rename_i e hfile
      obtain rfl := Except.error.inj h
      exact .inl (.search hsome hline (map_error_iff.mp hfile))
    · cases h
    · exact .inr (Except.error.inj h).symm
    · exact .inr (Except.error.inj h).symm
    · cases h
  | some line =>
    rw [command_eq, hline] at h
    obtain ⟨fault, hsplit, rfl⟩ := mapError_eq_error_iff.mp h
    exact .inl (.unsplit hsome hline hsplit)

/-! ### Consultations -/

theorem outcome_of_command_error (hsome : requests ≠ [])
    (h : command host root setup.command = .error fault) :
    (consult host setup root requests).consultation.outcome = .error fault := by
  have hconsulted := consulted_consult host setup root hsome
  generalize (consult host setup root requests).consultation = consultation at hconsulted ⊢
  cases hconsulted with
  | noCommand hcommand => rw [Except.error.inj (hcommand.symm.trans h)]
  | nullInRoot hcommand | unwritable hcommand | started hcommand =>
    rw [h] at hcommand
    cases hcommand

/-- What escapes ends the consultation. -/
theorem outcome_of_escapes (h : Escapes host setup root requests fault) :
    (consult host setup root requests).consultation.outcome = .error fault := by
  cases h with
  | unsplit hsome hline hsplit =>
    apply outcome_of_command_error hsome
    rw [command_eq, hline]
    exact mapError_eq_error_iff.mpr ⟨_, hsplit, rfl⟩
  | search hsome hnone hrefused =>
    have hfile : host.files.hasFile (installedIn root) = .error _ :=
      map_error_iff.mpr hrefused
    apply outcome_of_command_error hsome
    rw [command_eq, hnone, hfile]
  | nullInRoot hsome hcommand hnull =>
    have hconsulted := consulted_consult host setup root hsome
    generalize (consult host setup root requests).consultation = consultation at hconsulted ⊢
    cases hconsulted with
    | noCommand hfailed =>
      rw [hcommand] at hfailed
      cases hfailed
    | nullInRoot => rfl
    | unwritable _ hplain | started _ hplain =>
      rw [hnull] at hplain
      cases hplain
  | blank hline hblank hstarted hlaunch =>
    obtain ⟨words, hcommand, -, houtcome⟩ := outcome_of_invocations hstarted
    obtain rfl : words = [] :=
      Except.ok.inj (hcommand.symm.trans (command_eq_ok_nil_iff.mpr ⟨_, hline, hblank⟩))
    rw [houtcome, hlaunch]
    rfl
  | denied hstarted hlaunch =>
    obtain ⟨words, -, -, houtcome⟩ := outcome_of_invocations hstarted
    rw [houtcome, hlaunch]
    rfl
  | failed hstarted hlaunch =>
    obtain ⟨words, -, -, houtcome⟩ := outcome_of_invocations hstarted
    rw [houtcome, hlaunch]
    rfl
  | limit hstarted hlaunch hbrief =>
    obtain ⟨words, -, htimeout, houtcome⟩ := outcome_of_invocations hstarted
    rw [houtcome, hlaunch, conclude, htimeout, hbrief]
  | unreadable hstarted hlaunch hoverflow =>
    obtain ⟨words, -, -, houtcome⟩ := outcome_of_invocations hstarted
    rw [houtcome, hlaunch, conclude, hoverflow]

theorem Escapes.ne_failure (h : Escapes host setup root requests fault) (failure : Failure) :
    fault ≠ .failure failure := by
  cases h <;> simp

/-! ### Verdicts -/

theorem isOn_of_decides {name : Text} {messages : List CompilerMessage} {entry : ProbeEntry}
    {r : Request} {v : Verdict} (htype : entry.expectedType = r.expectedType)
    (h : Decides name messages entry v) : v.IsOn r := by
  cases h with
  | unresolved =>
    rw [htype]
    exact .unresolved
  | mismatch =>
    rw [htype]
    exact .mismatch
  | assignable => exact .assignable

theorem onePerRequest_verdicts (requests : List Request) (name : Text)
    (messages : List CompilerMessage) :
    OnePerRequest requests ((Program.ofRequests requests).verdicts
      ((Program.ofRequests requests).findings name messages)) where
  length := Program.length_verdicts requests _
  each := by
    intro i r hr
    obtain ⟨before, after, -, hentry⟩ := Program.ofRequests_at hr
    rw [Program.verdicts, List.getElem?_map, hentry]
    exact ⟨_, rfl, isOn_of_decides rfl (Program.decides_verdict hentry)⟩

/-- The end of a start keeps the contract, or a fault escapes. -/
theorem honours_of_started
    (hstarted : (consult host setup root requests).consultation.invocations = [invocation]) :
    Honours requests (consult host setup root requests).consultation.outcome ∨
      ∃ fault, Escapes host setup root requests fault := by
  obtain ⟨words, hcommand, htimeout, houtcome⟩ := outcome_of_invocations hstarted
  cases hlaunch : host.launch invocation with
  | finished output errors status =>
    obtain ⟨words, hconcluded⟩ := concluded_consult hstarted hlaunch
    generalize (consult host setup root requests).consultation.outcome = outcome at hconcluded ⊢
    cases hconcluded with
    | unreadable hoverflow => exact .inr ⟨_, .unreadable hstarted hlaunch hoverflow⟩
    | silent => exact .inl (.inr ⟨_, rfl, rfl⟩)
    | judged => exact .inl (.inl ⟨_, rfl, onePerRequest_verdicts ..⟩)
  | notFound =>
    cases words with
    | nil =>
      obtain ⟨line, hline, hblank⟩ := command_eq_ok_nil_iff.mp hcommand
      exact .inr ⟨_, .blank hline hblank hstarted hlaunch⟩
    | cons first words =>
      rw [houtcome, hlaunch]
      exact .inl (.inr ⟨_, rfl, rfl⟩)
  | timedOut =>
    cases hbrief : setup.timeout.brief with
    | error fault => exact .inr ⟨_, .limit hstarted hlaunch hbrief⟩
    | ok seconds =>
      rw [houtcome, hlaunch, conclude, htimeout, hbrief]
      exact .inl (.inr ⟨_, rfl, rfl⟩)
  | denied => exact .inr ⟨_, .denied hstarted hlaunch⟩
  | failed error => exact .inr ⟨_, .failed hstarted hlaunch⟩

theorem honours_or_escapes (host : Host) (setup : Setup) (root : Path) (requests : List Request) :
    Honours requests (consult host setup root requests).consultation.outcome ∨
      ∃ fault, Escapes host setup root requests fault := by
  by_cases hsome : requests = []
  · subst hsome
    exact .inl (.inl ⟨[], rfl, rfl, by simp⟩)
  have hstarted := @honours_of_started host setup root requests
  have hconsulted := consulted_consult host setup root hsome
  generalize (consult host setup root requests).consultation = consultation at hconsulted hstarted ⊢
  cases hconsulted with
  | noCommand hcommand =>
    rcases escapes_of_command_error hsome hcommand with hescapes | rfl
    · exact .inr ⟨_, hescapes⟩
    · exact .inl (.inr ⟨_, rfl, rfl⟩)
  | nullInRoot hcommand hnull => exact .inr ⟨_, .nullInRoot hsome hcommand hnull⟩
  | unwritable => exact .inl (.inr ⟨_, rfl, rfl⟩)
  | started => exact hstarted rfl

/-- No start gives a null character to a program. -/
theorem launch_of_nullInWord (h : ∃ word ∈ invocation.words, '\x00' ∈ word) :
    host.launch invocation = .failed .nullInWord := by
  obtain ⟨word, hword, hnull⟩ := h
  rw [Host.launch, if_pos]
  exact List.any_eq_true.mpr ⟨word, hword, List.contains_iff_mem.mpr hnull⟩

/-- A consultation keeps the contract of an oracle exactly if nothing escapes from it, and what
escapes is its outcome; a null character in a word of the command always escapes. -/
theorem honours_iff (host : Host) (setup : Setup) (root : Path) (requests : List Request) :
    let outcome := (consult host setup root requests).consultation.outcome
    (Honours requests outcome ↔ ¬∃ fault, Escapes host setup root requests fault) ∧
      (∀ fault, Escapes host setup root requests fault → outcome = .error fault) ∧
      ∀ invocation, (consult host setup root requests).consultation.invocations = [invocation] →
        (∃ word ∈ invocation.words, '\x00' ∈ word) →
        Escapes host setup root requests (.start .nullInWord) := by
  intro outcome
  refine ⟨⟨?_, ?_⟩, fun fault => outcome_of_escapes,
    fun invocation hstarted hnull => .failed hstarted (launch_of_nullInWord hnull)⟩
  · rintro hhonours ⟨fault, hescapes⟩
    have houtcome : outcome = .error fault := outcome_of_escapes hescapes
    rcases hhonours with ⟨verdicts, hok, -⟩ | ⟨failure, hfailed, -⟩
    · rw [houtcome] at hok
      cases hok
    · rw [houtcome] at hfailed
      exact hescapes.ne_failure failure (Except.error.inj hfailed)
  · exact (honours_or_escapes host setup root requests).resolve_right

/-! ### A blank command -/

/-- A declaration of an integer, with what is asked about it. -/
def integerRequest : Request := Declaration.request ⟨['f'], ['f'], "int".toList, .empty, [], 1, 1⟩

/-- An empty directory, in which no compiler is found. -/
def hostWithoutCompiler : Host :=
  ⟨.ofTree .empty ⟨.root, []⟩, [], none, fun _ => .notFound, [['x']], fun _ => .accepts⟩

/-- A command of one blank has no word that could be told of, so it breaks the contract if nothing
can be started. -/
theorem not_honours_blank_command :
    let outcome := (consult hostWithoutCompiler ⟨some [' '], none, .whole 120⟩ ⟨.root, []⟩
      [integerRequest]).consultation.outcome
    outcome = .error .noCommandWord ∧ ¬Honours [integerRequest] outcome := by
  intro outcome
  have houtcome : outcome = .error .noCommandWord := rfl
  refine ⟨houtcome, ?_⟩
  rintro (⟨verdicts, hok, -⟩ | ⟨failure, hfailed, -⟩)
  · rw [houtcome] at hok
    cases hok
  · rw [houtcome] at hfailed
    cases hfailed

end Compiler

end ForeignBindings
