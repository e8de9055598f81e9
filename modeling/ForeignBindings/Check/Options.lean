import ForeignBindings.Compiler.Timeout
import ForeignBindings.Decimal.Literal
import ForeignBindings.Failure

/-! The options of a check: defaults, then the environment, then what is asked for explicitly. -/

namespace ForeignBindings

/-- The variables of the environment. -/
abbrev Environment := List (Text × Text)

/-- The value of a variable that is set to something. -/
def Environment.value? (environment : Environment) (name : Text) : Option Text :=
  match environment.lookup name with
  | none | some [] => none
  | some value => some value

/-- Where a check starts, and how it runs the compiler: the command line, the configuration that is
extended, and how long to wait.  A configuration that is set to nothing is that of the project. -/
structure Options where
  base : Option Path := none
  directory : Option Path := none
  command : Option Text := none
  configuration : Option (Option Path) := none
  timeout : Option Timeout := none

namespace Options

def commandVariable : Text := "BINDCHECK_TSC".toList

def configurationVariable : Text := "BINDCHECK_TSCONFIG".toList

def timeoutVariable : Text := "BINDCHECK_TIMEOUT".toList

def timeoutOf (environment : Environment) : Except Failure (Option Timeout) :=
  match environment.value? timeoutVariable with
  | none => .ok none
  | some value =>
    match Literal.real? value with
    | some seconds => .ok (some (.real seconds))
    | none =>
      .error (.ofConfiguration
        (timeoutVariable ++ " must be a number of seconds, got ".toList ++ Text.quoted value) none)

/-- The options that an environment gives. -/
def ofEnvironment (environment : Environment) : Except Failure Options :=
  (timeoutOf environment).map fun timeout =>
    ⟨none, none, environment.value? commandVariable,
      (environment.value? configurationVariable).map (some ∘ Path.ofText), timeout⟩

/-- The options with explicit ones in their place. -/
def override (options explicit : Options) : Options :=
  ⟨explicit.base.or options.base, explicit.directory.or options.directory,
    explicit.command.or options.command, explicit.configuration.or options.configuration,
    explicit.timeout.or options.timeout⟩

/-- The path of the configuration that is extended in place of the project's own. -/
def configurationPath? (options : Options) : Option Path := options.configuration.join

/-- The time limit; two minutes unless another is given. -/
def limit (options : Options) : Timeout := options.timeout.getD .default

/-- The directory from which a check starts, seen from a working directory. -/
def start (options : Options) (workingDirectory : Path) : Except Fault Path :=
  let base := options.base.getD workingDirectory
  match Path.resolve? workingDirectory (base.join (options.directory.getD (.ofText []))) with
  | some path => .ok path
  | none => .error .nullInPath

end Options

end ForeignBindings
