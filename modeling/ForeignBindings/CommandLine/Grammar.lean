import ForeignBindings.Text.Digit
import ForeignBindings.Text.Quoted

/-! Command lines.  A grammar has options, each with one or more names, and at most one operand; the
words of a command line are read from left to right into settings.  A long name may be shortened as
long as one option fits, short options without values may be joined, and after two dashes every
word is an operand.  Two dashes as the value of an option stand for no value. -/

namespace ForeignBindings.CommandLine

/-- What an option does: it shows the help or the version, it changes the settings, or it reads a
value into them; `nothing` is the change for an option that is set to nothing. -/
inductive Effect (σ : Type)
  | help
  | version
  | set (change : σ → σ)
  | value (read : Text → Except Text (σ → σ)) (nothing : σ → σ)

/-- An option: its names, and what it does. -/
structure Switch (σ : Type) where
  names : List Text
  effect : Effect σ

/-- An operand: its name, and whether it is one word, at most one word, or a command from a list
with all the words after it. -/
inductive Operand (σ : Type)
  | required (name : Text) (store : Text → σ → σ)
  | optional (name : Text) (store : Text → σ → σ)
  | command (name : Text) (choices : List Text) (store : Text → List Text → σ → σ)

/-- A grammar: the name of the program, its usage, its help, its version, its options and its
operand. -/
structure Grammar (σ : Type) where
  program : Text
  usage : Text
  help : Text
  version : Text
  switches : List (Switch σ)
  operand : Option (Operand σ)

/-- Why reading ends early. -/
inductive Stop
  | help
  | version
  | failed (message : Text)
  deriving DecidableEq

variable {σ : Type}

/-- The names of an option, as messages show them. -/
def Switch.title (switch : Switch σ) : Text := Text.join ['/'] switch.names

def Switch.takesValue (switch : Switch σ) : Bool :=
  match switch.effect with
  | .value _ _ => true
  | _ => false

/-- A message about an argument. -/
def complaint (title message : Text) : Text :=
  "argument ".toList ++ title ++ ": ".toList ++ message

/-- The message about a value that is none of the choices. -/
def invalidChoice (value : Text) (choices : List Text) : Text :=
  "invalid choice: ".toList ++ value.quoted ++ " (choose from ".toList ++
    Text.join ", ".toList (choices.map Text.quoted) ++ [')']

/-- A value that is one of the choices. -/
def chosen (choices : List Text) (value : Text) : Except Text Text :=
  if choices.contains value then .ok value else .error (invalidChoice value choices)

/-- The word after which there are no options. -/
def twoDashes : Text := ['-', '-']

/-- How a word is read: as an operand; as the two dashes after which there are no options; as an
option under one of its names, perhaps with a value attached in the same word; or as an option that
the grammar does not know. -/
inductive Reading (σ : Type)
  | operand
  | separator
  | switch (switch : Switch σ) (name : Text) (attached : Option Text)
  | unknown

/-- A word and how it is read. -/
structure Word (σ : Type) where
  text : Text
  reading : Reading σ

/-- The names of all options, each with its option. -/
def Grammar.names (g : Grammar σ) : List (Text × Switch σ) :=
  g.switches.flatMap fun switch => switch.names.map fun name => (name, switch)

/-- The option of a name. -/
def Grammar.switch? (g : Grammar σ) (name : Text) : Option (Switch σ) := g.names.lookup name

/-- The text before the first equals sign and the text after it. -/
def cutEquals (text : Text) : Text × Option Text :=
  match text.dropWhile (· != '=') with
  | [] => (text, none)
  | _ :: value => (text.takeWhile (· != '='), some value)

/-- The options that a word with a shortened or joined name may mean. -/
def Grammar.readings (g : Grammar σ) (word : Text) : List (Switch σ × Text × Option Text) :=
  if twoDashes.isPrefixOf word then
    let (start, value) := cutEquals word
    (g.names.filter fun (name, _) => start.isPrefixOf name).map fun (name, switch) =>
      (switch, name, value)
  else
    g.names.filterMap fun (name, switch) =>
      if name = word.take 2 then some (switch, name, some (word.drop 2))
      else if word.isPrefixOf name then some (switch, name, none)
      else none

/-- A word looks like a negative number; one line feed may stand after it. -/
def isNegativeNumber (word : Text) : Bool :=
  let body : Text := if word.getLast? = some '\n' then word.dropLast else word
  match body with
  | '-' :: number =>
    let whole := number.takeWhile isDecimalDigit
    match number.dropWhile isDecimalDigit with
    | [] => whole != []
    | '.' :: fraction => fraction != [] && fraction.all isDecimalDigit
    | _ => false
  | _ => false

/-- How a word that is not the two dashes is read, or the message about several options that it may
mean. -/
def Grammar.classify (g : Grammar σ) (word : Text) : Except Text (Reading σ) :=
  if word.head? ≠ some '-' then .ok .operand
  else match g.switch? word with
    | some switch => .ok (.switch switch word none)
    | none =>
      if word.length = 1 then .ok .operand
      else
        let (name, value) := cutEquals word
        match value, g.switch? name with
        | some text, some switch => .ok (.switch switch name (some text))
        | _, _ =>
          match g.readings word with
          | [(switch, name, attached)] => .ok (.switch switch name attached)
          | [] => if isNegativeNumber word ∨ word.contains ' ' then .ok .operand else .ok .unknown
          | several =>
            .error ("ambiguous option: ".toList ++ word ++ " could match ".toList ++
              Text.join ", ".toList (several.map fun (_, name, _) => name))

/-- The words of a command line; after the first two dashes all are operands. -/
def Grammar.classifyAll (g : Grammar σ) : List Text → Except Text (List (Word σ))
  | [] => .ok []
  | word :: rest =>
    if word = twoDashes then .ok (⟨word, .separator⟩ :: rest.map fun text => ⟨text, .operand⟩)
    else match g.classify word with
      | .error message => .error message
      | .ok reading => (g.classifyAll rest).map (⟨word, reading⟩ :: ·)

/-- What an option and its attached value come to: options without values, and an option with a
value or one that waits for it. -/
structure Plan (σ : Type) where
  plain : List (Switch σ)
  valued : Option (Switch σ × Option Text)

/-- A plan with one more option before it. -/
def Plan.cons (switch : Switch σ) (plan : Plan σ) : Plan σ :=
  { plan with plain := switch :: plan.plain }

/-- The message about a value that an option does not take. -/
def ignoredValue (switch : Switch σ) (value : Text) : Text :=
  complaint switch.title ("ignored explicit argument ".toList ++ value.quoted)

/-- The plan for an option without an attached value. -/
def planAlone (switch : Switch σ) : Plan σ :=
  if switch.takesValue then ⟨[], some (switch, none)⟩ else ⟨[switch], none⟩

/-- The plan for an option with an attached value: an option without values that has a short name
takes the value for more short options, the first of which may have the rest as its own. -/
def Grammar.planAttached (g : Grammar σ) (switch : Switch σ) (short : Bool) :
    Text → Except Text (Plan σ)
  | [] =>
    if switch.takesValue then .ok ⟨[], some (switch, some [])⟩ else .error (ignoredValue switch [])
  | c :: rest =>
    if switch.takesValue then .ok ⟨[], some (switch, some (c :: rest))⟩
    else match if short then g.switch? ['-', c] else none with
      | none => .error (ignoredValue switch (c :: rest))
      | some next =>
        match rest with
        | [] => .ok (.cons switch (planAlone next))
        | other :: more => (g.planAttached next true (other :: more)).map (.cons switch)

/-- A name with a single dash. -/
def isShort (name : Text) : Bool := (name.drop 1).head? != some '-'

/-- The plan for an option. -/
def Grammar.plan (g : Grammar σ) (switch : Switch σ) (name : Text) :
    Option Text → Except Text (Plan σ)
  | none => .ok (planAlone switch)
  | some value => g.planAttached switch (isShort name) value

/-- What has been read: the settings, the words that fit nowhere, and the operand still to come. -/
structure Progress (σ : Type) where
  settings : σ
  extras : List Text
  operand : Option (Operand σ)

/-- More words that fit nowhere. -/
def Progress.addExtras (p : Progress σ) (words : List Text) : Progress σ :=
  { p with extras := p.extras ++ words }

/-- An option without a value takes effect. -/
def Progress.apply (p : Progress σ) (switch : Switch σ) : Except Stop (Progress σ) :=
  match switch.effect with
  | .help => .error .help
  | .version => .error .version
  | .set change => .ok { p with settings := change p.settings }
  | .value _ _ => .ok p

/-- Options without values take effect in order. -/
def Progress.applyAll (p : Progress σ) : List (Switch σ) → Except Stop (Progress σ)
  | [] => .ok p
  | switch :: rest =>
    match p.apply switch with
    | .error stop => .error stop
    | .ok next => next.applyAll rest

/-- An option reads its value; two dashes set it to nothing. -/
def Progress.readValue (p : Progress σ) (switch : Switch σ) (value : Text) :
    Except Stop (Progress σ) :=
  match switch.effect with
  | .value read nothing =>
    match if value = twoDashes then .ok nothing else read value with
    | .ok change => .ok { p with settings := change p.settings }
    | .error message => .error (.failed (complaint switch.title message))
  | _ => .ok p

/-- A command is chosen, with all the words after it. -/
def Progress.choose (p : Progress σ) (name : Text) (choices : List Text)
    (store : Text → List Text → σ → σ) (word : Text) (rest : List Text) :
    Except Stop (Progress σ) :=
  match chosen choices word with
  | .error message => .error (.failed (complaint name message))
  | .ok command => .ok ⟨store command rest p.settings, p.extras, none⟩

/-- The operand has been read. -/
def Progress.stored (p : Progress σ) (store : Text → σ → σ) (word : Text) : Progress σ :=
  ⟨store word p.settings, p.extras, none⟩

/-- The words after a separator that directly follows an operand. -/
def dropSeparator : List (Word σ) → List (Word σ)
  | ⟨_, .separator⟩ :: rest => rest
  | words => words

/-- The text of the first word, if it is an operand. -/
def nextOperand? : List (Word σ) → Option Text
  | ⟨text, .operand⟩ :: _ => some text
  | _ => none

/-- What the words after the two dashes come to: all of them are operands. -/
def Progress.readOperands (p : Progress σ) (words : List Text) : Except Stop (Progress σ) :=
  match p.operand, words with
  | none, _ => .ok (p.addExtras (twoDashes :: words))
  | some (.required _ store), word :: rest | some (.optional _ store), word :: rest =>
    .ok ((p.stored store word).addExtras rest)
  | some (.command name choices store), word :: rest =>
    p.choose name choices store twoDashes (word :: rest)
  | some (.optional _ _), [] => .ok p
  | some _, [] => .ok (p.addExtras [twoDashes])

/-- What an option comes to, when the given operand follows it, and whether it used the operand. -/
def Grammar.readSwitch (g : Grammar σ) (p : Progress σ) (switch : Switch σ) (name : Text)
    (attached following : Option Text) :
    Except Stop (Progress σ × Bool) := do
  let plan ← (g.plan switch name attached).mapError .failed
  let effects := p.applyAll plan.plain
  match plan.valued, following with
  | none, _ => return (← effects, false)
  | some (last, some value), _ => return (← (← effects).readValue last value, false)
  | some (last, none), some value => return (← (← effects).readValue last value, true)
  | some (last, none), none =>
    .error (.failed (complaint last.title "expected one argument".toList))

/-- Reads words from left to right. -/
def Grammar.readWords (g : Grammar σ) (p : Progress σ) (words : List (Word σ)) :
    Except Stop (Progress σ) :=
  match words with
  | [] => .ok p
  | ⟨_, .separator⟩ :: rest => p.readOperands (rest.map Word.text)
  | ⟨text, .unknown⟩ :: rest => g.readWords (p.addExtras [text]) rest
  | ⟨text, .operand⟩ :: rest =>
    match p.operand with
    | none => g.readWords (p.addExtras [text]) rest
    | some (.required _ store) | some (.optional _ store) =>
      g.readWords (p.stored store text) (dropSeparator rest)
    | some (.command name choices store) =>
      p.choose name choices store text (rest.map Word.text)
  | ⟨_, .switch switch name attached⟩ :: rest =>
    match g.readSwitch p switch name attached (nextOperand? rest) with
    | .error stop => .error stop
    | .ok (next, usedNext) => g.readWords next (if usedNext then rest.drop 1 else rest)
termination_by words.length
decreasing_by
  · simp
  · simp
  · have : (dropSeparator rest).length ≤ rest.length := by
      unfold dropSeparator
      split <;> simp
    simp only [List.length_cons]
    omega
  · split <;> simp only [List.length_cons, List.length_drop] <;> omega

/-- The settings and the words that fit nowhere; an operand that is required has to be there. -/
def Progress.finish (p : Progress σ) : Except Stop (σ × List Text) :=
  match p.operand with
  | some (.required name _) =>
    .error (.failed ("the following arguments are required: ".toList ++ name))
  | _ => .ok (p.settings, p.extras)

/-- Reads a command line into settings; words that fit nowhere are left over. -/
def Grammar.read (g : Grammar σ) (initial : σ) (words : List Text) :
    Except Stop (σ × List Text) := do
  let classified ← (g.classifyAll words).mapError .failed
  let progress ← g.readWords ⟨initial, [], g.operand⟩ classified
  progress.finish

/-- The failure of words that fit nowhere. -/
def unrecognized (words : List Text) : Stop :=
  .failed ("unrecognized arguments: ".toList ++ Text.join [' '] words)

/-- What a run puts out: its status, its output, and its errors. -/
structure Output where
  status : Nat
  output : Text
  errors : Text
  deriving DecidableEq

/-- What a program puts out when reading its command line ends early. -/
def Grammar.stopped (g : Grammar σ) : Stop → Output
  | .help => ⟨0, g.help, []⟩
  | .version => ⟨0, g.version, []⟩
  | .failed message =>
    ⟨2, [], g.usage ++ g.program ++ ": error: ".toList ++ message ++ ['\n']⟩

end ForeignBindings.CommandLine
