import ForeignBindings.Check.Bindings

/-! What reports say.  A report has errors exactly if one of its diagnostics is an error; an unread
source file, a failure of the oracle and a verdict against a declaration each give one; and an
outcome passes if there is a report and it has none. -/

namespace ForeignBindings

/-- The outcome is a report without errors. -/
def Outcome.Passes (outcome : Outcome) : Prop :=
  ∃ report, outcome.report = .ok report ∧ report.hasErrors = false

theorem hasErrors_ofDiagnostics {externals : Int} {diagnostics : List Diagnostic} :
    (Report.ofDiagnostics externals diagnostics).hasErrors = true ↔
      ∃ d ∈ diagnostics, d.severity = .error := by
  simp [Report.hasErrors, Report.ofDiagnostics, Summary.ofDiagnostics, countSeverity,
    List.countP_pos_iff]

theorem hasErrors_ofDiagnostics_eq_false {externals : Int} {diagnostics : List Diagnostic} :
    (Report.ofDiagnostics externals diagnostics).hasErrors = false ↔
      ∀ d ∈ diagnostics, d.severity ≠ .error := by
  rw [← Bool.not_eq_true, hasErrors_ofDiagnostics]
  simp

namespace Check

variable {fs : FileSystem} {oracle : Oracle} {root : Path}

/-! ### Diagnostics -/

theorem severity_of_mem_warnings {r : Request} {d : Diagnostic} (h : d ∈ warnings r) :
    d.severity = .warning := by
  obtain ⟨warning, -, rfl⟩ := List.mem_map.mp h
  rfl

theorem objection?_eq_none_iff {d : Declaration} {v : Verdict} :
    objection? d v = none ↔ v = .assignable := by
  cases v <;> simp [objection?]

/-- What is said against a declaration is an error. -/
theorem error_of_objection? {d : Declaration} {v : Verdict} {diagnostic : Diagnostic}
    (h : objection? d v = some diagnostic) :
    diagnostic.severity = .error ∧
      (diagnostic.code = some mismatchCode ∨ diagnostic.code = some unresolvedCode) := by
  cases v with
  | assignable => cases h
  | unresolved expected detail =>
    obtain rfl := Option.some.inj h
    exact ⟨rfl, .inr rfl⟩
  | mismatch expected actual detail =>
    obtain rfl := Option.some.inj h
    exact ⟨rfl, .inl rfl⟩

theorem mem_judgements {requests : List Request} {verdicts : List Verdict} {d : Diagnostic} :
    d ∈ judgements requests verdicts ↔ ∃ r v, (r, v) ∈ requests.zip verdicts ∧
      (d ∈ warnings r ∨ objection? r.declaration v = some d) := by
  simp [judgements]

/-- The errors among the diagnostics for verdicts are what is said against declarations. -/
theorem error_mem_judgements_iff {requests : List Request} {verdicts : List Verdict}
    {d : Diagnostic} (hd : d.severity = .error) :
    d ∈ judgements requests verdicts ↔
      ∃ r v, (r, v) ∈ requests.zip verdicts ∧ objection? r.declaration v = some d := by
  have hwarnings : ∀ r, d ∉ warnings r := fun r hmem => by
    rw [severity_of_mem_warnings hmem] at hd
    cases hd
  simp [mem_judgements, hwarnings]

theorem exists_mem_zip {requests : List Request} {verdicts : List Verdict}
    (h : verdicts.length = requests.length) {v : Verdict} (hv : v ∈ verdicts) :
    ∃ r, (r, v) ∈ requests.zip verdicts := by
  rw [← List.map_snd_zip (Nat.le_of_eq h), List.mem_map] at hv
  obtain ⟨⟨r, v⟩, hpair, rfl⟩ := hv
  exact ⟨r, hpair⟩

theorem exists_error_of_verdict {requests : List Request} {verdicts : List Verdict}
    (h : verdicts.length = requests.length) {v : Verdict} (hv : v ∈ verdicts)
    (hagainst : v ≠ .assignable) :
    ∃ d ∈ judgements requests verdicts, d.severity = .error ∧
      (d.code = some mismatchCode ∨ d.code = some unresolvedCode) := by
  obtain ⟨r, hpair⟩ := exists_mem_zip h hv
  obtain ⟨d, hobjection⟩ := Option.ne_none_iff_exists'.mp
    (mt (@objection?_eq_none_iff r.declaration v).mp hagainst)
  exact ⟨d, mem_judgements.mpr ⟨r, v, hpair, .inr hobjection⟩, error_of_objection? hobjection⟩

theorem forall_mem_judgements_iff {requests : List Request} {verdicts : List Verdict}
    (h : verdicts.length = requests.length) :
    (∀ d ∈ judgements requests verdicts, d.severity ≠ .error) ↔
      ∀ v ∈ verdicts, v = .assignable := by
  constructor
  · intro hclean v hv
    refine Decidable.byContradiction fun hagainst => ?_
    obtain ⟨d, hd, herror, -⟩ := exists_error_of_verdict h hv hagainst
    exact hclean d hd herror
  · intro hall d hd herror
    obtain ⟨r, v, hpair, hobjection⟩ := (error_mem_judgements_iff herror).mp hd
    have hv : v = .assignable := hall v (List.of_mem_zip hpair).2
    rw [objection?_eq_none_iff.mpr hv] at hobjection
    cases hobjection

/-- A source file has an error exactly if it cannot be read. -/
theorem forall_mem_scanFile_iff {file : Path} :
    (∀ d ∈ (scanFile fs file).diagnostics, d.severity ≠ .error) ↔
      ∃ text, fs.read file = .ok text := by
  rw [scanFile, FileSystem.declarations]
  cases fs.read file with
  | error fault => simp [Except.map, Diagnostic.aboutFile]
  | ok text => simp [Except.map]

/-! ### Outcomes -/

@[simp] theorem passes_preceded_iff {events : List Event} {outcome : Outcome} :
    (preceded events outcome).Passes ↔ outcome.Passes :=
  Iff.rfl

theorem preceded_preceded (before after : List Event) (outcome : Outcome) :
    preceded before (preceded after outcome) = preceded (before ++ after) outcome := by
  simp [preceded]

@[simp] theorem passes_unasked_iff {report : Except Fault Report} {events : List Event} :
    (unasked report events).Passes ↔ ∃ r, report = .ok r ∧ r.hasErrors = false :=
  Iff.rfl

@[simp] theorem hasErrors_onlyError (message file code : Text) :
    (onlyError message file code).hasErrors = true := by
  simp [onlyError, hasErrors_ofDiagnostics, Diagnostic.aboutFile]

end Check

end ForeignBindings
