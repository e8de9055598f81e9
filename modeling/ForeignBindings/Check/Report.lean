import ForeignBindings.Check.Diagnostic

/-! The report of a check: its diagnostics in order, and how many there are of which severity. -/

namespace ForeignBindings

/-- How many declarations were checked, and how many errors and warnings there are. -/
structure Summary where
  externals : Int
  errors : Nat
  warnings : Nat
  deriving DecidableEq

/-- A summary, and the diagnostics that it counts. -/
structure Report where
  summary : Summary
  diagnostics : List Diagnostic
  deriving DecidableEq

def countSeverity (severity : Severity) (diagnostics : List Diagnostic) : Nat :=
  diagnostics.countP fun d => d.severity == severity

def Summary.ofDiagnostics (externals : Int) (diagnostics : List Diagnostic) : Summary :=
  ⟨externals, countSeverity .error diagnostics, countSeverity .warning diagnostics⟩

def Summary.toJson (s : Summary) : Json :=
  .object
    [("externals".toList, .int s.externals), ("errors".toList, Json.ofNat s.errors),
     ("warnings".toList, Json.ofNat s.warnings)]

namespace Report

def ofDiagnostics (externals : Int) (diagnostics : List Diagnostic) : Report :=
  ⟨.ofDiagnostics externals diagnostics, diagnostics⟩

/-- The check found an error. -/
def hasErrors (report : Report) : Bool := 0 < report.summary.errors

def toJson (report : Report) : Json :=
  .object
    [("summary".toList, report.summary.toJson),
     ("diagnostics".toList, .array (report.diagnostics.map Diagnostic.toJson))]

end Report

end ForeignBindings
