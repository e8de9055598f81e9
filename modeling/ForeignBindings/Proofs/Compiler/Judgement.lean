import ForeignBindings.Compiler.Run
import ForeignBindings.Proofs.Compiler.Verdict

/-! What the messages of a compiler say.  Of the messages about a request, the first one on a line
that names a type decides, else the first one on the line that assigns; so neither the messages
about other requests nor how the two kinds are mixed plays a part. -/

namespace ForeignBindings

/-- The message is about a line of a request. -/
def CompilerMessage.IsMapped (message : CompilerMessage) (program : Program) (name : Text) : Prop :=
  message.isAbout name = true ∧ (program.locate? message.line).isSome = true

/-- The message is about a line that has one of the roles in an entry. -/
def CompilerMessage.isOn (roles : List Role) (name : Text) (entry : ProbeEntry)
    (message : CompilerMessage) : Bool :=
  message.isAbout name && roles.any fun role => entry.line role == message.line

/-- The verdict on an entry that messages lead to: the first message about a line that names a type
says that the value was not found, else the first message about the line that assigns says that it
does not fit. -/
inductive Decides (name : Text) (messages : List CompilerMessage) (entry : ProbeEntry) :
    Verdict → Prop
  | unresolved {message : CompilerMessage}
    (hfirst : messages.find? (CompilerMessage.isOn [.expected, .actual] name entry) =
      some message) :
    Decides name messages entry (.unresolved (some entry.expectedType) (some message.text))
  | mismatch {message : CompilerMessage}
    (hnone : messages.find? (CompilerMessage.isOn [.expected, .actual] name entry) = none)
    (hfirst : messages.find? (CompilerMessage.isOn [.probe] name entry) = some message) :
    Decides name messages entry (.mismatch (some entry.expectedType)
      (CompilerMessage.actualType? message.text) (some message.text))
  | assignable
    (hnone : messages.find? (CompilerMessage.isOn [.expected, .actual] name entry) = none)
    (hfits : messages.find? (CompilerMessage.isOn [.probe] name entry) = none) :
    Decides name messages entry .assignable

/-- The messages about the types of each entry are the same in the same order, and so are those
about its assignment; how all of them are mixed does not matter. -/
def Program.Remixed (program : Program) (name : Text) (messages messages' : List CompilerMessage) :
    Prop :=
  ∀ entry ∈ program.entries,
    messages'.filter (CompilerMessage.isOn [.expected, .actual] name entry) =
        messages.filter (CompilerMessage.isOn [.expected, .actual] name entry) ∧
      messages'.filter (CompilerMessage.isOn [.probe] name entry) =
        messages.filter (CompilerMessage.isOn [.probe] name entry)

/-! ### Findings -/

/-- What a finding says, if it is about a line with one of the roles. -/
def Finding.detail? (roles : List Role) (finding : Finding) : Option Text :=
  if finding.role ∈ roles then some finding.text else none

namespace Verdict

/-- The verdict when the first message about the types and the first one about the assignment are
known. -/
def ofFirst (expected : Text) : Option Text → Option Text → Verdict
  | some text, _ => .unresolved (some expected) (some text)
  | none, some text => .mismatch (some expected) (CompilerMessage.actualType? text) (some text)
  | none, none => .assignable

/-- One more finding counts only if it is the first of its kind. -/
theorem update_ofFirst (expected : Text) (type probe : Option Text) (finding : Finding) :
    (ofFirst expected type probe).update expected finding =
      ofFirst expected (type.or (finding.detail? [.expected, .actual]))
        (probe.or (finding.detail? [.probe])) := by
  obtain ⟨index, role, text⟩ := finding
  cases type <;> cases probe <;> cases role <;> rfl

theorem foldl_update_ofFirst (expected : Text) (type probe : Option Text)
    (findings : List Finding) :
    findings.foldl (update expected) (ofFirst expected type probe) =
      ofFirst expected (type.or (findings.findSome? (Finding.detail? [.expected, .actual])))
        (probe.or (findings.findSome? (Finding.detail? [.probe]))) := by
  induction findings generalizing type probe with
  | nil => simp
  | cons finding findings ih =>
    rw [List.foldl_cons, update_ofFirst, ih, Option.or_assoc, Option.or_assoc,
      List.findSome?_cons, List.findSome?_cons]
    cases finding.detail? [.expected, .actual] <;> cases finding.detail? [.probe] <;> rfl

end Verdict

namespace Program

variable {requests : List Request} {name : Text} {messages messages' : List CompilerMessage}
  {i : Nat} {entry : ProbeEntry}

/-- The first thing that the findings about a request say, in terms of the messages. -/
theorem findSome?_findings (program : Program) (detail : Finding → Option Text) (i : Nat) :
    ((program.findings name messages).filter fun finding => finding.index == i).findSome? detail =
      messages.findSome? fun message =>
        if message.isAbout name then
          (program.locate? message.line).bind fun (index, role) =>
            if index = i then detail ⟨index, role, message.text⟩ else none
        else none := by
  rw [← List.head?_filterMap, ← List.head?_filterMap, findings, List.filterMap_filter,
    List.filterMap_filterMap, List.filterMap_filter]
  congr 2
  funext message
  cases message.isAbout name with
  | false => rfl
  | true =>
    cases program.locate? message.line with
    | none => rfl
    | some located => simp

theorem findSome?_eq_map_find? {found : CompilerMessage → Option Text}
    {p : CompilerMessage → Bool}
    (h : ∀ message, found message = if p message = true then some message.text else none) :
    messages.findSome? found = (messages.find? p).map CompilerMessage.text := by
  induction messages with
  | nil => rfl
  | cons message messages ih =>
    rw [List.findSome?_cons, h message, List.find?_cons, ih]
    cases p message <;> rfl

theorem isOn_iff (hentry : (ofRequests requests).entries[i]? = some entry) {roles : List Role}
    {message : CompilerMessage} :
    message.isOn roles name entry = true ↔ message.isAbout name = true ∧
      ∃ role ∈ roles, (ofRequests requests).locate? message.line = some (i, role) := by
  simp [CompilerMessage.isOn, locate?_ofRequests, hentry]

theorem findSome?_detail (hentry : (ofRequests requests).entries[i]? = some entry)
    (roles : List Role) :
    (((ofRequests requests).findings name messages).filter
        fun finding => finding.index == i).findSome? (Finding.detail? roles) =
      (messages.find? (CompilerMessage.isOn roles name entry)).map CompilerMessage.text := by
  rw [findSome?_findings]
  apply findSome?_eq_map_find?
  intro message
  simp only [isOn_iff hentry]
  cases message.isAbout name with
  | false => simp
  | true =>
    cases (ofRequests requests).locate? message.line with
    | none => simp
    | some located =>
      obtain ⟨index, role⟩ := located
      by_cases hindex : index = i
      · simp [hindex, Finding.detail?]
      · simp [hindex]

theorem verdict_eq_ofFirst (hentry : (ofRequests requests).entries[i]? = some entry) :
    verdict ((ofRequests requests).findings name messages) entry =
      .ofFirst entry.expectedType
        ((messages.find? (CompilerMessage.isOn [.expected, .actual] name entry)).map
          CompilerMessage.text)
        ((messages.find? (CompilerMessage.isOn [.probe] name entry)).map CompilerMessage.text) := by
  have hfold := Verdict.foldl_update_ofFirst entry.expectedType none none
    (((ofRequests requests).findings name messages).filter fun finding => finding.index == i)
  rw [Option.none_or, Option.none_or, findSome?_detail hentry, findSome?_detail hentry] at hfold
  rw [verdict, index_of_getElem? hentry]
  exact hfold

theorem decides_verdict (hentry : (ofRequests requests).entries[i]? = some entry) :
    Decides name messages entry
      (verdict ((ofRequests requests).findings name messages) entry) := by
  rw [verdict_eq_ofFirst hentry]
  cases htype : messages.find? (CompilerMessage.isOn [.expected, .actual] name entry) with
  | some message => exact .unresolved htype
  | none =>
    cases hprobe : messages.find? (CompilerMessage.isOn [.probe] name entry) with
    | some message => exact .mismatch htype hprobe
    | none => exact .assignable htype hprobe

/-! ### Mixing -/

theorem find?_of_filter {p : CompilerMessage → Bool} (h : messages'.filter p = messages.filter p) :
    messages'.find? p = messages.find? p := by
  rw [← List.head?_filter, h, List.head?_filter]

theorem Remixed.verdicts_eq (h : (ofRequests requests).Remixed name messages messages') :
    (ofRequests requests).verdicts ((ofRequests requests).findings name messages') =
      (ofRequests requests).verdicts ((ofRequests requests).findings name messages) := by
  rw [verdicts, verdicts]
  refine List.map_congr_left fun entry hmem => ?_
  obtain ⟨i, hentry⟩ := List.mem_iff_getElem?.mp hmem
  obtain ⟨htype, hprobe⟩ := h entry hmem
  rw [verdict_eq_ofFirst hentry, verdict_eq_ofFirst hentry, find?_of_filter htype,
    find?_of_filter hprobe]

theorem Remixed.findings_eq_nil_iff
    (h : (ofRequests requests).Remixed name messages messages') :
    (ofRequests requests).findings name messages' = [] ↔
      (ofRequests requests).findings name messages = [] := by
  rw [← forall_verdicts_iff, h.verdicts_eq, forall_verdicts_iff]

theorem findings_eq_nil_iff_not_mapped {program : Program} :
    program.findings name messages = [] ↔
      ∀ message ∈ messages, ¬message.IsMapped program name := by
  simp [findings_eq_nil_iff, CompilerMessage.IsMapped]

end Program

namespace Compiler

/-- What is judged of messages.  If the compiler failed and no message is about a line of a request,
the oracle has failed to say anything; otherwise there is one verdict for each entry, which the
first messages about its lines decide; and mixing the messages in another way changes nothing. -/
theorem judge_decides (requests : List Request) (name output : Text) (words : List Text)
    (status : Int) (messages : List CompilerMessage) :
    let program := Program.ofRequests requests
    (status ≠ 0 → (∀ message ∈ messages, ¬message.IsMapped program name) →
      judge program name words output status messages = .error (.failure
        ⟨"TypeScript compiler failed without reporting on the checked bindings".toList, none,
          .oracleOutput ⟨words, output⟩⟩)) ∧
    ((status = 0 ∨ ∃ message ∈ messages, message.IsMapped program name) →
      ∃ verdicts, judge program name words output status messages = .ok verdicts ∧
        verdicts.length = program.entries.length ∧
        ∀ (i : Nat) (entry : ProbeEntry), program.entries[i]? = some entry →
          ∃ v, verdicts[i]? = some v ∧ Decides name messages entry v) ∧
    ∀ messages', program.Remixed name messages messages' →
      judge program name words output status messages' =
        judge program name words output status messages := by
  intro program
  refine ⟨?_, ?_, ?_⟩
  · intro hstatus hnone
    rw [judge, if_pos ⟨hstatus, Program.findings_eq_nil_iff_not_mapped.mpr hnone⟩]
  · intro hsaid
    have hjudged : ¬(status ≠ 0 ∧ program.findings name messages = []) := by
      rw [Program.findings_eq_nil_iff_not_mapped]
      rintro ⟨hstatus, hnone⟩
      rcases hsaid with hzero | ⟨message, hmem, hmapped⟩
      · exact hstatus hzero
      · exact hnone message hmem hmapped
    refine ⟨_, if_neg hjudged, List.length_map _, fun i entry hentry => ?_⟩
    rw [Program.verdicts, List.getElem?_map, hentry]
    exact ⟨_, rfl, Program.decides_verdict hentry⟩
  · intro messages' hremixed
    have hverdicts : program.verdicts (program.findings name messages') =
      program.verdicts (program.findings name messages) := hremixed.verdicts_eq
    have hnone : program.findings name messages' = [] ↔ program.findings name messages = [] :=
      hremixed.findings_eq_nil_iff
    simp only [judge, hverdicts, hnone]

end Compiler

end ForeignBindings
