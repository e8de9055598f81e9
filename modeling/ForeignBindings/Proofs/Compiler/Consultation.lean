import ForeignBindings.Compiler.Run
import ForeignBindings.Proofs.Compiler.Verdict

/-! Consultations of the compiler.  A consultation starts at most one compiler, and if that compiler
finishes, there are three ways to conclude from its output; all requests are accepted exactly if it
ended well and no message concerns a request. -/

namespace ForeignBindings

/-- The failure is one of the oracle, which could not run or said nothing. -/
def Failure.IsOfOracle (failure : Failure) : Prop := failure.cause.command?.isSome = true

theorem Host.launch_of_plain {host : Host} {invocation : Invocation}
    (h : ∀ word ∈ invocation.words, '\x00' ∉ word) :
    host.launch invocation = host.process invocation := by
  rw [launch, if_neg (by simpa using h)]

namespace Compiler

variable {host : Host} {setup : Setup} {root : Path} {requests : List Request}
  {program : Program} {words : List Text} {invocation : Invocation}

/-- How the output of a finished compiler is concluded: it has a number that is too long to read;
or the compiler failed without a message about a request; or there are verdicts. -/
inductive Concluded (program : Program) (words : List Text) (name output : Text) (status : Int) :
    Except Fault (List Verdict) → Prop
  | unreadable {e : Literal.TooManyDigits} (hoverflow : CompilerMessage.all output = .error e) :
    Concluded program words name output status (.error (.tooManyDigits e))
  | silent {messages : List CompilerMessage} (hmessages : CompilerMessage.all output = .ok messages)
    (hstatus : status ≠ 0) (hnone : program.findings name messages = []) :
    Concluded program words name output status (.error (.failure
      ⟨"TypeScript compiler failed without reporting on the checked bindings".toList, none,
        .oracleOutput ⟨words, output⟩⟩))
  | judged {messages : List CompilerMessage} (hmessages : CompilerMessage.all output = .ok messages)
    (hsaid : status = 0 ∨ program.findings name messages ≠ []) :
    Concluded program words name output status
      (.ok (program.verdicts (program.findings name messages)))

theorem concluded_conclude (program : Program) (words : List Text) (invocation : Invocation)
    (output errors : Text) (status : Int) :
    Concluded program words invocation.program.name (output ++ errors) status
      (conclude program words invocation (.finished output errors status)).1 := by
  unfold conclude
  dsimp only
  cases hmessages : CompilerMessage.all (output ++ errors) with
  | error e => exact .unreadable hmessages
  | ok messages =>
    dsimp only [judge]
    split
    · rename_i hsilent
      exact .silent hmessages hsilent.1 hsilent.2
    · rename_i hsaid
      refine .judged hmessages ?_
      by_cases hstatus : status = 0
      · exact .inl hstatus
      · exact .inr fun hnone => hsaid ⟨hstatus, hnone⟩

/-- Only a compiler that finished gives verdicts. -/
theorem finished_of_conclude_ok {launch : Launch} {verdicts : List Verdict}
    (h : (conclude program words invocation launch).1 = .ok verdicts) :
    ∃ output errors status, launch = .finished output errors status := by
  cases launch with
  | finished output errors status => exact ⟨output, errors, status, rfl⟩
  | notFound => cases words <;> cases h
  | timedOut =>
    unfold conclude at h
    dsimp only at h
    split at h <;> cases h
  | denied => cases h
  | failed => cases h

/-- How a consultation about requests goes: there is no command, the root is no path of a file, a
temporary file cannot be written, or a compiler is started. -/
inductive Consulted (host : Host) (setup : Setup) (root : Path) (requests : List Request) :
    Consultation → Prop
  | noCommand {fault : Fault} (hcommand : command host root setup.command = .error fault) :
    Consulted host setup root requests ⟨.error fault, [], []⟩
  | nullInRoot {words : List Text} (hcommand : command host root setup.command = .ok words)
    (hnull : root.hasNull = true) : Consulted host setup root requests ⟨.error .nullInPath, [], []⟩
  | unwritable {words : List Text} {e : SystemError}
    (hcommand : command host root setup.command = .ok words) (hplain : root.hasNull = false) :
    Consulted host setup root requests ⟨.error (.failure (unwritable root e)), [], []⟩
  | started {words : List Text} {invocation : Invocation}
    (hcommand : command host root setup.command = .ok words) (hplain : root.hasNull = false)
    (htimeout : invocation.timeout = setup.timeout) :
    Consulted host setup root requests (start host (.ofRequests requests) words invocation)

theorem consulted_consult (host : Host) (setup : Setup) (root : Path) (h : requests ≠ []) :
    Consulted host setup root requests (consult host setup root requests).consultation := by
  unfold consult
  rw [if_neg (by simpa using h)]
  split
  · rename_i hcommand
    exact .noCommand hcommand
  · rename_i words hcommand
    split
    · rename_i hnull
      exact .nullInRoot hcommand hnull
    · rename_i hplain
      rw [Bool.not_eq_true] at hplain
      unfold run
      dsimp only
      split
      · exact .unwritable hcommand hplain
      · split
        · exact .unwritable hcommand hplain
        · exact .started hcommand hplain rfl

/-- A consultation about requests is stopped before a compiler is started, or starts one. -/
theorem consult_cases (host : Host) (setup : Setup) (root : Path) (h : requests ≠ []) :
    (∃ fault, (consult host setup root requests).consultation = ⟨.error fault, [], []⟩) ∨
      ∃ words invocation, (consult host setup root requests).consultation =
        start host (.ofRequests requests) words invocation := by
  have hconsulted := consulted_consult host setup root h
  generalize (consult host setup root requests).consultation = consultation at hconsulted ⊢
  cases hconsulted with
  | noCommand | nullInRoot | unwritable => exact .inl ⟨_, rfl⟩
  | started => exact .inr ⟨_, _, rfl⟩

/-- What comes of a consultation in which a compiler was started. -/
theorem outcome_of_invocations
    (h : (consult host setup root requests).consultation.invocations = [invocation]) :
    ∃ words, command host root setup.command = .ok words ∧ invocation.timeout = setup.timeout ∧
      (consult host setup root requests).consultation.outcome =
        (conclude (.ofRequests requests) words invocation (host.launch invocation)).1 := by
  have hrequests : requests ≠ [] := by
    rintro rfl
    cases h
  have hconsulted := consulted_consult host setup root hrequests
  generalize (consult host setup root requests).consultation = consultation at h hconsulted ⊢
  cases hconsulted with
  | noCommand | nullInRoot | unwritable => cases h
  | @started words started hcommand hplain htimeout =>
    obtain rfl : started = invocation := (List.cons.inj h).1
    exact ⟨words, hcommand, htimeout, rfl⟩

theorem concluded_consult {output errors : Text} {status : Int}
    (hstarted : (consult host setup root requests).consultation.invocations = [invocation])
    (hfinished : host.launch invocation = .finished output errors status) :
    ∃ words, Concluded (.ofRequests requests) words invocation.program.name (output ++ errors)
      status (consult host setup root requests).consultation.outcome := by
  obtain ⟨words, -, -, houtcome⟩ := outcome_of_invocations hstarted
  rw [houtcome, hfinished]
  exact ⟨words, concluded_conclude ..⟩

/-- Verdicts come from a compiler that finished, unless there are no requests. -/
theorem judged_of_consult_ok {verdicts : List Verdict} (h : requests ≠ [])
    (hok : (consult host setup root requests).consultation.outcome = .ok verdicts) :
    ∃ invocation output errors status messages,
      (consult host setup root requests).consultation.invocations = [invocation] ∧
      host.launch invocation = .finished output errors status ∧
      CompilerMessage.all (output ++ errors) = .ok messages ∧
      (status = 0 ∨ (Program.ofRequests requests).findings invocation.program.name messages ≠ []) ∧
      verdicts = (Program.ofRequests requests).verdicts
        ((Program.ofRequests requests).findings invocation.program.name messages) := by
  obtain ⟨fault, hstopped⟩ | ⟨words, invocation, hstart⟩ := consult_cases host setup root h
  · rw [hstopped] at hok
    cases hok
  have hstarted : (consult host setup root requests).consultation.invocations = [invocation] := by
    rw [hstart]
    rfl
  rw [hstart] at hok
  obtain ⟨output, errors, status, hfinished⟩ := finished_of_conclude_ok hok
  obtain ⟨words, hconcluded⟩ := concluded_consult hstarted hfinished
  rw [hstart, show (start host _ _ invocation).outcome = _ from hok] at hconcluded
  cases hconcluded with
  | judged hmessages hsaid =>
    exact ⟨invocation, output, errors, status, _, hstarted, hfinished, hmessages, hsaid, rfl⟩

theorem length_of_consult_ok {verdicts : List Verdict}
    (hok : (consult host setup root requests).consultation.outcome = .ok verdicts) :
    verdicts.length = requests.length := by
  by_cases h : requests = []
  · subst h
    obtain rfl : [] = verdicts := Except.ok.inj hok
    rfl
  · obtain ⟨_, _, _, _, _, -, -, -, -, rfl⟩ := judged_of_consult_ok h hok
    exact Program.length_verdicts requests _

/-- The compiler that was started for the requests ended well, and no message about their program
is about one of the lines. -/
def EndsClean (host : Host) (setup : Setup) (root : Path) (requests : List Request)
    (lines : Nat → Prop) : Prop :=
  ∃ invocation output errors messages,
    (consult host setup root requests).consultation.invocations = [invocation] ∧
    host.launch invocation = .finished output errors 0 ∧
    CompilerMessage.all (output ++ errors) = .ok messages ∧
    ∀ message ∈ messages, message.isAbout invocation.program.name = true → ¬lines message.line

theorem findings_eq_nil_iff {name : Text} {messages : List CompilerMessage} :
    (Program.ofRequests requests).findings name messages = [] ↔
      ∀ message ∈ messages, message.isAbout name = true →
        ¬Program.IsEntryLine requests message.line := by
  simp only [Program.findings_eq_nil_iff, Program.locate?_eq_none_iff]

/-- All requests are accepted exactly if the compiler ran, ended well, and reported nothing on the
lines of their entries. -/
theorem accepts_iff (h : requests ≠ []) :
    (∃ verdicts, (consult host setup root requests).consultation.outcome = .ok verdicts ∧
        ∀ v ∈ verdicts, v = .assignable) ↔
      EndsClean host setup root requests (Program.IsEntryLine requests) := by
  constructor
  · rintro ⟨verdicts, hok, hall⟩
    obtain ⟨invocation, output, errors, status, messages, hstarted, hfinished, hmessages, hsaid,
      rfl⟩ := judged_of_consult_ok h hok
    have hnone := Program.forall_verdicts_iff.mp hall
    obtain rfl : status = 0 := hsaid.resolve_right fun hsome => hsome hnone
    exact ⟨invocation, output, errors, messages, hstarted, hfinished, hmessages,
      findings_eq_nil_iff.mp hnone⟩
  · rintro ⟨invocation, output, errors, messages, hstarted, hfinished, hmessages, hnone⟩
    rw [← findings_eq_nil_iff] at hnone
    obtain ⟨words, hconcluded⟩ := concluded_consult hstarted hfinished
    generalize (consult host setup root requests).consultation.outcome = outcome at hconcluded ⊢
    cases hconcluded with
    | unreadable hoverflow =>
      rw [hmessages] at hoverflow
      cases hoverflow
    | silent _ hstatus => exact absurd rfl hstatus
    | judged hmessages' =>
      obtain rfl := Except.ok.inj (hmessages.symm.trans hmessages')
      exact ⟨_, rfl, Program.forall_verdicts_iff.mpr hnone⟩

end Compiler

end ForeignBindings
