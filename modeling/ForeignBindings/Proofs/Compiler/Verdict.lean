import ForeignBindings.Compiler.Verdict
import ForeignBindings.Proofs.Probe.RequestLine

/-! Messages and verdicts.  A message concerns a request if it is about a line of the request in the
file of the program; and a request is accepted exactly if no message concerns it. -/

namespace ForeignBindings

/-- The message is about a line of the request of the given number. -/
def CompilerMessage.Concerns (message : CompilerMessage) (program : Program) (name : Text)
    (i : Nat) : Prop :=
  message.isAbout name = true ∧ ∃ role, program.locate? message.line = some (i, role)

theorem Verdict.update_ne_assignable (expected : Text) (verdict : Verdict) (finding : Finding) :
    verdict.update expected finding ≠ .assignable := by
  unfold update
  split <;> simp

namespace Program

variable {program : Program} {name : Text} {messages : List CompilerMessage}

theorem mem_findings {finding : Finding} :
    finding ∈ program.findings name messages ↔
      ∃ message ∈ messages, message.isAbout name = true ∧
        program.locate? message.line = some (finding.index, finding.role) ∧
        message.text = finding.text := by
  simp only [findings, List.mem_filterMap, List.mem_filter, Option.map_eq_some_iff, Prod.exists]
  constructor
  · rintro ⟨message, ⟨hmem, habout⟩, i, role, hlocate, rfl⟩
    exact ⟨message, hmem, habout, hlocate, rfl⟩
  · rintro ⟨message, hmem, habout, hlocate, htext⟩
    exact ⟨message, ⟨hmem, habout⟩, finding.index, finding.role, hlocate, by rw [htext]⟩

theorem exists_finding_iff {i : Nat} :
    (∃ finding ∈ program.findings name messages, finding.index = i) ↔
      ∃ message ∈ messages, message.Concerns program name i := by
  constructor
  · rintro ⟨finding, hfinding, rfl⟩
    obtain ⟨message, hmem, habout, hlocate, -⟩ := mem_findings.mp hfinding
    exact ⟨message, hmem, habout, finding.role, hlocate⟩
  · rintro ⟨message, hmem, habout, role, hlocate⟩
    exact ⟨⟨i, role, message.text⟩, mem_findings.mpr ⟨message, hmem, habout, hlocate, rfl⟩, rfl⟩

theorem findings_eq_nil_iff :
    program.findings name messages = [] ↔
      ∀ message ∈ messages, message.isAbout name = true →
        program.locate? message.line = none := by
  rw [List.eq_nil_iff_forall_not_mem]
  constructor
  · intro h message hmem habout
    rw [Option.eq_none_iff_forall_ne_some]
    rintro ⟨i, role⟩ hlocate
    exact h ⟨i, role, message.text⟩ (mem_findings.mpr ⟨message, hmem, habout, hlocate, rfl⟩)
  · intro h finding hfinding
    obtain ⟨message, hmem, habout, hlocate, -⟩ := mem_findings.mp hfinding
    rw [h message hmem habout] at hlocate
    cases hlocate

theorem foldl_update_ne_assignable {expected : Text} {verdict : Verdict}
    (h : verdict ≠ .assignable) (findings : List Finding) :
    findings.foldl (Verdict.update expected) verdict ≠ .assignable := by
  induction findings generalizing verdict with
  | nil => exact h
  | cons finding findings ih => exact ih (verdict.update_ne_assignable expected finding)

theorem verdict_eq_assignable_iff {findings : List Finding} {entry : ProbeEntry} :
    verdict findings entry = .assignable ↔ ¬∃ finding ∈ findings, finding.index = entry.index := by
  have hnil : (findings.filter fun finding => finding.index == entry.index) = [] ↔
      ¬∃ finding ∈ findings, finding.index = entry.index := by
    simp [List.filter_eq_nil_iff]
  rw [← hnil, verdict]
  cases findings.filter fun finding => finding.index == entry.index with
  | nil => simp
  | cons finding rest =>
    have hfirst := Verdict.update_ne_assignable entry.expectedType .assignable finding
    simpa using foldl_update_ne_assignable hfirst rest

/-! ### The program for requests -/

variable {requests : List Request}

theorem length_entries (requests : List Request) :
    (ofRequests requests).entries.length = requests.length :=
  length_entries_layout ..

theorem length_verdicts (requests : List Request) (findings : List Finding) :
    ((ofRequests requests).verdicts findings).length = requests.length := by
  rw [verdicts, List.length_map, length_entries]

theorem index_of_getElem? {i : Nat} {entry : ProbeEntry}
    (h : (ofRequests requests).entries[i]? = some entry) : entry.index = i := by
  have hi := (List.getElem?_eq_some_iff.mp h).1
  rw [length_entries] at hi
  obtain ⟨before, after, -, hentry⟩ := ofRequests_at (List.getElem?_eq_getElem hi)
  rw [← Option.some.inj (hentry.symm.trans h)]
  rfl

theorem locate?_ofRequests {line i : Nat} {role : Role} :
    (ofRequests requests).locate? line = some (i, role) ↔
      ∃ entry, (ofRequests requests).entries[i]? = some entry ∧ entry.line role = line :=
  locate?_eq_some_iff (ascending_layout _ _ _ _) fun _ _ => index_of_getElem?

theorem locate?_eq_none_iff {line : Nat} :
    (ofRequests requests).locate? line = none ↔ ¬IsEntryLine requests line := by
  rw [Option.eq_none_iff_forall_ne_some]
  constructor
  · rintro h ⟨entry, hmem, role, hline⟩
    obtain ⟨i, hentry⟩ := List.mem_iff_getElem?.mp hmem
    exact h (i, role) (locate?_ofRequests.mpr ⟨entry, hentry, hline⟩)
  · rintro h ⟨i, role⟩ hlocate
    obtain ⟨entry, hentry, hline⟩ := locate?_ofRequests.mp hlocate
    exact h ⟨entry, List.mem_of_getElem? hentry, role, hline⟩

theorem lt_length_of_locate? {line i : Nat} {role : Role}
    (h : (ofRequests requests).locate? line = some (i, role)) : i < requests.length := by
  obtain ⟨entry, hentry, -⟩ := locate?_ofRequests.mp h
  rw [← length_entries]
  exact (List.getElem?_eq_some_iff.mp hentry).1

/-- A request is accepted exactly if no message concerns it. -/
theorem verdicts_getElem?_iff {i : Nat} (hi : i < requests.length) :
    ((ofRequests requests).verdicts ((ofRequests requests).findings name messages))[i]? =
        some .assignable ↔
      ¬∃ message ∈ messages, message.Concerns (ofRequests requests) name i := by
  rw [← length_entries] at hi
  have hindex := index_of_getElem? (List.getElem?_eq_getElem hi)
  rw [verdicts, List.getElem?_map, List.getElem?_eq_getElem hi, Option.map_some, Option.some.injEq,
    verdict_eq_assignable_iff, hindex, exists_finding_iff]

theorem forall_verdicts_iff :
    (∀ v ∈ (ofRequests requests).verdicts ((ofRequests requests).findings name messages),
        v = .assignable) ↔
      (ofRequests requests).findings name messages = [] := by
  constructor
  · intro h
    rw [List.eq_nil_iff_forall_not_mem]
    intro finding hfinding
    obtain ⟨message, hmem, habout, hlocate, -⟩ := mem_findings.mp hfinding
    have hi := lt_length_of_locate? hlocate
    have hverdict : ∃ v, ((ofRequests requests).verdicts
        ((ofRequests requests).findings name messages))[finding.index]? = some v :=
      ⟨_, List.getElem?_eq_getElem (by rwa [length_verdicts])⟩
    obtain ⟨v, hv⟩ := hverdict
    rw [h v (List.mem_of_getElem? hv)] at hv
    exact (verdicts_getElem?_iff hi).mp hv ⟨message, hmem, habout, finding.role, hlocate⟩
  · intro h v hv
    rw [h, verdicts, List.mem_map] at hv
    obtain ⟨entry, -, rfl⟩ := hv
    rfl

end Program

end ForeignBindings
