import ForeignBindings.Proofs.Compiler.Consultation
import ForeignBindings.Proofs.Probe.Import

/-! Modules that cannot be imported.  The lines that import modules belong to no request, so an
error on such a line counts only if no other error does: a consultation reports on the module if
the compiler failed without a message about a request, or if every request that imports from the
module has a message of its own. -/

namespace ForeignBindings

namespace Program

variable {requests : List Request} {path : Text}

/-- The lines that import modules stand before those of all requests. -/
theorem locate?_importLine (h : path ∈ importPaths requests) :
    (ofRequests requests).locate? (importLine requests path) = none := by
  have hnumber := List.idxOf_lt_length_of_mem h
  have hlength := length_importLines 0 (importPaths requests)
  -- one more line, for the global values, stands between the imports and the requests
  apply locate?_eq_none_of_le (ascending_layout _ _ _ _)
  rw [List.length_append, hlength, importLine]
  omega

theorem exists_verdict_ne_assignable_iff {name : Text} {messages : List CompilerMessage} {i : Nat}
    (hi : i < requests.length) :
    (∃ v, ((ofRequests requests).verdicts ((ofRequests requests).findings name messages))[i]? =
        some v ∧ v ≠ .assignable) ↔
      ∃ message ∈ messages, message.Concerns (ofRequests requests) name i := by
  have hiff := @verdicts_getElem?_iff name messages _ _ hi
  rw [← length_verdicts requests ((ofRequests requests).findings name messages)] at hi
  rw [List.getElem?_eq_getElem hi, Option.some.injEq] at hiff
  simp [List.getElem?_eq_getElem hi, hiff]

end Program

namespace Compiler

variable {host : Host} {setup : Setup} {root : Path} {requests : List Request} {path : Text}
  {invocation : Invocation} {output errors : Text} {status : Int}

/-- The outcome of a consultation reports on a module: the oracle failed, or every request that
imports from the module has a verdict against it. -/
def ReportsOn (path : Text) (requests : List Request) (outcome : Except Fault (List Verdict)) :
    Prop :=
  (∃ failure, outcome = .error (.failure failure) ∧ failure.IsOfOracle) ∨
    ∃ verdicts, outcome = .ok verdicts ∧ ∀ (i : Nat) (r : Request), requests[i]? = some r →
      r.target.importPath = some path → ∃ v, verdicts[i]? = some v ∧ v ≠ .assignable

theorem reportsOn_verdicts_iff {name : Text} {messages : List CompilerMessage} :
    ReportsOn path requests (.ok ((Program.ofRequests requests).verdicts
        ((Program.ofRequests requests).findings name messages))) ↔
      ∀ (i : Nat) (r : Request), requests[i]? = some r → r.target.importPath = some path →
        ∃ message ∈ messages, message.Concerns (.ofRequests requests) name i := by
  simp only [ReportsOn, reduceCtorEq, false_and, exists_false, false_or, Except.ok.injEq,
    exists_eq_left']
  refine forall_congr' fun i => forall_congr' fun r => forall_congr' fun hr => ?_
  have hi := (List.getElem?_eq_some_iff.mp hr).1
  rw [Program.exists_verdict_ne_assignable_iff hi]

theorem reportsOn_concluded_iff {words : List Text} {name : Text}
    {outcome : Except Fault (List Verdict)}
    (h : Concluded (.ofRequests requests) words name (output ++ errors) status outcome) :
    ReportsOn path requests outcome ↔
      ∃ messages, CompilerMessage.all (output ++ errors) = .ok messages ∧
        ((status ≠ 0 ∧ ∀ message ∈ messages, message.isAbout name = true →
            (Program.ofRequests requests).locate? message.line = none) ∨
          ∀ (i : Nat) (r : Request), requests[i]? = some r → r.target.importPath = some path →
            ∃ message ∈ messages, message.Concerns (.ofRequests requests) name i) := by
  cases h with
  | unreadable hoverflow =>
    simp [ReportsOn, hoverflow]
  | @silent messages hmessages hstatus hnone =>
    constructor
    · intro _
      exact ⟨messages, hmessages, .inl ⟨hstatus, Program.findings_eq_nil_iff.mp hnone⟩⟩
    · intro _
      exact .inl ⟨_, rfl, rfl⟩
  | @judged messages hmessages hsaid =>
    rw [reportsOn_verdicts_iff]
    constructor
    · intro hall
      exact ⟨messages, hmessages, .inr hall⟩
    · rintro ⟨messages', hmessages', hcase⟩
      obtain rfl := Except.ok.inj (hmessages.symm.trans hmessages')
      -- a compiler that failed without a message about a request gives no verdicts
      refine hcase.resolve_left ?_
      rintro ⟨hstatus, hnone⟩
      exact hsaid.elim hstatus fun hsome => hsome (Program.findings_eq_nil_iff.mpr hnone)

/-- The line that imports a module is located in no request, so an error on it alone never counts:
the consultation reports on the module exactly if the compiler failed without a message about any
request, or if it has a message about each request that imports from the module. -/
theorem reportsOn_iff (himported : ∃ r ∈ requests, r.target.importPath = some path)
    (hstarted : (consult host setup root requests).consultation.invocations = [invocation])
    (hfinished : host.launch invocation = .finished output errors status) :
    let program := Program.ofRequests requests
    let name := invocation.program.name
    program.physicalLine? (Program.importLine requests path) =
        some (Program.importStatement ((Program.importPaths requests).idxOf path) path) ∧
      program.locate? (Program.importLine requests path) = none ∧
      (ReportsOn path requests (consult host setup root requests).consultation.outcome ↔
        ∃ messages, CompilerMessage.all (output ++ errors) = .ok messages ∧
          ((status ≠ 0 ∧ ∀ message ∈ messages, message.isAbout name = true →
              program.locate? message.line = none) ∨
            ∀ (i : Nat) (r : Request), requests[i]? = some r → r.target.importPath = some path →
              ∃ message ∈ messages, message.Concerns program name i)) := by
  intro program name
  obtain ⟨words, hconcluded⟩ := concluded_consult hstarted hfinished
  rw [← Program.mem_importPaths] at himported
  exact ⟨Program.physicalLine?_importLine himported, Program.locate?_importLine himported,
    reportsOn_concluded_iff hconcluded⟩

/-! ### A hidden error -/

/-- A declaration of an integer. -/
def integerBinding (name : Text) (importPath : Option Text) : Declaration :=
  ⟨name, name, "int".toList, { Attributes.empty with importPath := importPath }, [], 1, 1⟩

/-- A value of a module, and a global value. -/
def importedAndGlobal : List Request :=
  [integerBinding ['f'] (some ['m']), integerBinding ['g'] none].map Declaration.request

/-- An empty directory, with a compiler that fails with an answer. -/
def answering (answer : Text) : Host :=
  ⟨.ofTree .empty ⟨.root, []⟩, [], none, fun _ => .finished answer [] 2, [['x']],
    fun _ => .accepts⟩

/-- A consultation of that compiler about them. -/
def consultAnswered (answer : Text) : Consultation :=
  (consult (answering answer) ⟨some "tsc".toList, none, .whole 120⟩ ⟨.root, []⟩
    importedAndGlobal).consultation

theorem started_consultAnswered (answer : Text) : ∃ invocation,
    (consultAnswered answer).invocations = [invocation] ∧
      invocation.program.name = ".bindcheck-x.ts".toList ∧
      (answering answer).launch invocation = .finished answer [] 2 := by
  have hstarted : ∃ invocation, (consultAnswered answer).invocations = [invocation] ∧
      invocation.program.name = ".bindcheck-x.ts".toList ∧
      invocation.words = fullCommand ["tsc".toList] ⟨.root, [".bindcheck-x.json".toList]⟩ :=
    ⟨_, rfl, rfl, rfl⟩
  obtain ⟨invocation, hinvocations, hname, hwords⟩ := hstarted
  refine ⟨invocation, hinvocations, hname, Host.launch_of_plain ?_⟩
  rw [hwords]
  decide

/-- An answer: the module was not found. -/
def missingModule : Text := ".bindcheck-x.ts(1,20): error TS2307: Cannot find module.\n".toList

/-- One more answer: the global value does not fit. -/
def globalMismatch : Text := ".bindcheck-x.ts(10,7): error TS2322: Not assignable.\n".toList

def missingModuleMessage : CompilerMessage :=
  ⟨".bindcheck-x.ts".toList, 1, 20, "TS2307".toList, "Cannot find module.".toList⟩

def globalMismatchMessage : CompilerMessage :=
  ⟨".bindcheck-x.ts".toList, 10, 7, "TS2322".toList, "Not assignable.".toList⟩

theorem reportsOn_missing_module :
    ReportsOn ['m'] importedAndGlobal (consultAnswered missingModule).outcome := by
  obtain ⟨invocation, hstarted, -, hfinished⟩ := started_consultAnswered missingModule
  have hmessages : CompilerMessage.all (missingModule ++ []) = .ok [missingModuleMessage] := rfl
  have himport : (Program.ofRequests importedAndGlobal).locate? 1 = none := by decide +kernel
  apply (reportsOn_iff ⟨_, List.mem_cons_self, rfl⟩ hstarted hfinished).2.2.mpr
  refine ⟨_, hmessages, .inl ⟨by decide, ?_⟩⟩
  intro message hmem _
  obtain rfl := List.mem_singleton.mp hmem
  exact himport

/-- A message about another request hides that the module was not found. -/
theorem not_reportsOn_missing_module :
    (∃ invocation messages message,
      (consultAnswered (missingModule ++ globalMismatch)).invocations = [invocation] ∧
      CompilerMessage.all (missingModule ++ globalMismatch) = .ok messages ∧
      message ∈ messages ∧ message.isAbout invocation.program.name = true ∧
      message.line = Program.importLine importedAndGlobal ['m']) ∧
      ¬ReportsOn ['m'] importedAndGlobal
        (consultAnswered (missingModule ++ globalMismatch)).outcome := by
  have hmessages : CompilerMessage.all (missingModule ++ globalMismatch) =
    .ok [missingModuleMessage, globalMismatchMessage] := rfl
  have houtcome : (consultAnswered (missingModule ++ globalMismatch)).outcome.toOption =
      some [.assignable, .mismatch (some "number".toList) none (some "Not assignable.".toList)] :=
    by decide +kernel
  constructor
  · obtain ⟨invocation, hstarted, hname, -⟩ :=
      started_consultAnswered (missingModule ++ globalMismatch)
    refine ⟨invocation, _, missingModuleMessage, hstarted, hmessages, List.mem_cons_self, ?_, ?_⟩
    · rw [hname]
      decide
    · decide +kernel
  · rintro (⟨_, hfailed, _⟩ | ⟨_, hok, hall⟩)
    · rw [hfailed] at houtcome
      cases houtcome
    · rw [hok] at houtcome
      obtain rfl := Option.some.inj houtcome
      obtain ⟨v, hv, hne⟩ := hall 0 _ rfl rfl
      exact hne (Option.some.inj hv).symm

end Compiler

end ForeignBindings
