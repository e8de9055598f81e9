import ForeignBindings.Compiler.Message
import ForeignBindings.Proofs.Traversal
import ForeignBindings.Proofs.Text.Lines
import ForeignBindings.Proofs.Text.Unique
import Mathlib.Data.List.Basic

/-! Messages are read back from the lines that tell them.  The name of a file goes up to the first
mark, which is the bracketed place with the code behind it; a mark holds no second bracket, so none
begins inside a name that has no mark of its own, and what stands after the mark does not matter.
Only the digits of a place are limited in number. -/

namespace ForeignBindings

open Text

/-! ### Numbers -/

/-- A run of decimal digits. -/
structure IsNumber (digits : Text) : Prop where
  ne_nil : digits ≠ []
  digits : ∀ c ∈ digits, isDecimalDigit c = true

theorem digitValue?_of_isDigit {c : Char} (h : c.isDigit = true) :
    digitValue? c = some (c.toNat - '0'.toNat) := by
  have hbounds : 48 ≤ c.toNat ∧ c.toNat ≤ 57 := by
    simpa [Char.isDigit, UInt32.le_iff_toNat_le] using h
  have hfirst : digitZeros = '0'.toNat :: digitZeros.tail := rfl
  rw [digitValue?, hfirst, List.find?_cons_of_pos]
  · rfl
  · simp only [Bool.and_eq_true, decide_eq_true_eq]
    exact hbounds

theorem isNumber_ofNat (n : Nat) : IsNumber (ofNat n) where
  ne_nil := Nat.toDigits_ne_nil
  digits := by
    intro c hc
    have hdigit := Nat.isDigit_of_mem_toDigits (by decide) (by decide) hc
    rw [isDecimalDigit, digitValue?_of_isDigit hdigit]
    rfl

theorem digitsValue_ofNat (n : Nat) : digitsValue (ofNat n) = n := by
  have hvalue : ∀ (text : Text) (total : Nat), (∀ c ∈ text, c.isDigit = true) →
      text.foldl (fun total c => 10 * total + (digitValue? c).getD 0) total =
        Nat.ofDigitChars 10 text total := by
    intro text
    induction text with
    | nil => exact fun _ _ => rfl
    | cons c text ih =>
      intro total h
      obtain ⟨hc, htext⟩ := List.forall_mem_cons.mp h
      rw [List.foldl_cons, digitValue?_of_isDigit hc, ih _ htext]
      rfl
  have hdigits : ∀ c ∈ ofNat n, c.isDigit = true := fun c hc =>
    Nat.isDigit_of_mem_toDigits (by decide) (by decide) hc
  rw [digitsValue, hvalue _ 0 hdigits]
  exact Nat.ofDigitChars_ten_toDigits

theorem natural_ofNat (n : Nat) : Literal.natural (ofNat n) =
    if n < 10 ^ Literal.maxIntegerDigits then .ok n else .error ⟨(ofNat n).length⟩ := by
  have hlength : (ofNat n).length ≤ Literal.maxIntegerDigits ↔ n < 10 ^ Literal.maxIntegerDigits :=
    Nat.length_toDigits_le_iff (by decide) (by decide)
  rw [Literal.natural, digitsValue_ofNat]
  by_cases h : n < 10 ^ Literal.maxIntegerDigits
  · rw [if_pos h, if_neg (Nat.not_lt.mpr (hlength.mpr h))]
  · rw [if_neg h, if_pos (Nat.lt_of_not_le fun hle => h (hlength.mp hle))]

namespace CompilerMessage

theorem number?_eq_some_iff {text digits rest : Text} : number? text = some (digits, rest) ↔
    IsNumber digits ∧ text = digits ++ rest ∧
      ∀ c, rest.head? = some c → isDecimalDigit c = false := by
  have hsplit : number? text = some (digits, rest) ↔ digits ≠ [] ∧
      text.takeWhile isDecimalDigit = digits ∧ text.dropWhile isDecimalDigit = rest := by
    rw [number?]
    split
    · rename_i hnil
      rw [hnil]
      simp +contextual
    · rename_i hne
      simp only [Option.some.injEq, Prod.mk.injEq]
      constructor
      · rintro ⟨rfl, rfl⟩
        exact ⟨hne, rfl, rfl⟩
      · exact And.right
  rw [hsplit]
  constructor
  · rintro ⟨hne, rfl, rfl⟩
    refine ⟨⟨hne, List.all_eq_true.mp List.all_takeWhile⟩,
      List.takeWhile_append_dropWhile.symm, fun c hc => ?_⟩
    have hstop := List.head?_dropWhile_not isDecimalDigit text
    rwa [hc] at hstop
  · rintro ⟨hnumber, rfl, hstop⟩
    have hrest : rest.takeWhile isDecimalDigit = [] ∧ rest.dropWhile isDecimalDigit = rest := by
      cases rest with
      | nil => exact ⟨rfl, rfl⟩
      | cons c rest =>
        have hc : ¬isDecimalDigit c = true := by simp [hstop c rfl]
        exact ⟨List.takeWhile_cons_of_neg hc, List.dropWhile_cons_of_neg hc⟩
    refine ⟨hnumber.ne_nil, ?_, ?_⟩
    · rw [List.takeWhile_append_of_pos hnumber.digits, hrest.1, List.append_nil]
    · rw [List.dropWhile_append_of_pos hnumber.digits, hrest.2]

/-! ### Marks -/

/-- What stands between the name of a file and the text of a message. -/
def mark (line column code : Text) : Text :=
  '(' :: (line ++ ',' :: (column ++ ("): error TS".toList ++ (code ++ ": ".toList))))

/-- A mark with digits of any script for the place and the code. -/
inductive IsMark : Text → Prop
  | intro {line column code : Text} (hline : IsNumber line) (hcolumn : IsNumber column)
    (hcode : IsNumber code) : IsMark (mark line column code)

theorem mark_append (line column code text : Text) : mark line column code ++ text =
    '(' :: (line ++ ',' ::
      (column ++ ("): error TS".toList ++ (code ++ (": ".toList ++ text))))) := by
  simp only [mark, List.cons_append, List.append_assoc]

/-- A remainder is read exactly where a mark stands, and what follows the mark is its text. -/
theorem remainder?_eq_some_iff {rest : Text} {r : Remainder} : remainder? rest = some r ↔
    IsNumber r.line ∧ IsNumber r.column ∧ IsNumber r.code ∧
      rest = mark r.line r.column r.code ++ r.text := by
  simp only [remainder?, bind, Option.bind_eq_some_iff, List.isPrefixOf?_eq_some_iff_append_eq,
    number?_eq_some_iff, Prod.exists, pure, Option.some.injEq]
  constructor
  · rintro ⟨fromLine, rfl, line, afterLine, ⟨hline, rfl, -⟩, fromColumn, rfl, column, afterColumn,
      ⟨hcolumn, rfl, -⟩, fromCode, rfl, code, afterCode, ⟨hcode, rfl, -⟩, text, rfl, rfl⟩
    exact ⟨hline, hcolumn, hcode, (mark_append ..).symm⟩
  · obtain ⟨line, column, code, text⟩ := r
    rintro ⟨hline, hcolumn, hcode, rfl⟩
    rw [mark_append]
    refine ⟨_, rfl, line, _, ⟨hline, rfl, ?_⟩, _, rfl, column, _, ⟨hcolumn, rfl, ?_⟩, _, rfl, code,
      _, ⟨hcode, rfl, ?_⟩, text, rfl, rfl⟩
    all_goals
      rintro c ⟨rfl⟩
      decide

theorem IsMark.holds_error {text : Text} (h : IsMark text) : ": error TS".toList <:+: text := by
  cases h with
  | @intro line column code =>
    exact ⟨'(' :: (line ++ ',' :: (column ++ [')'])), code ++ ": ".toList, by simp [mark]⟩

/-- No mark goes on over the beginning of another. -/
theorem IsMark.not_mem {c : Char} {text : Text} (h : IsMark (c :: text)) : '(' ∉ text := by
  have hnumber {digits : Text} (h : IsNumber digits) : '(' ∉ digits := fun hmem =>
    absurd (h.digits _ hmem) (by decide)
  generalize hwhole : c :: text = whole at h
  obtain ⟨hline, hcolumn, hcode⟩ := h
  obtain ⟨-, rfl⟩ := List.cons.inj hwhole
  simp only [List.mem_append, List.mem_cons, not_or]
  exact ⟨hnumber hline, by decide, hnumber hcolumn, by decide, hnumber hcode, by decide⟩

theorem exists_mark {rest : Text} {r : Remainder} (h : remainder? rest = some r) :
    ∃ text, IsMark text ∧ text <+: rest := by
  obtain ⟨hline, hcolumn, hcode, rfl⟩ := remainder?_eq_some_iff.mp h
  exact ⟨_, .intro hline hcolumn hcode, List.prefix_append _ _⟩

/-! ### Names of files -/

/-- The name of the file goes up to the first mark. -/
theorem split?_append {front rest : Text} {r : Remainder} (hne : front ≠ [])
    (hrest : remainder? rest = some r)
    (hnone : ∀ before after, front = before ++ after → before ≠ [] → after ≠ [] →
      remainder? (after ++ rest) = none) (length : Nat) :
    split? length (front ++ rest) = some (length + front.length, r) := by
  induction front generalizing length with
  | nil => exact absurd rfl hne
  | cons c front ih =>
    rw [List.cons_append, split?]
    cases front with
    | nil =>
      rw [List.nil_append, hrest]
      rfl
    | cons d front =>
      have hlater : ∀ before after, d :: front = before ++ after → before ≠ [] → after ≠ [] →
          remainder? (after ++ rest) = none := fun before after hsplit _ hafter =>
        hnone (c :: before) after (congrArg (c :: ·) hsplit) (List.cons_ne_nil c before) hafter
      rw [hnone [c] (d :: front) rfl (List.cons_ne_nil _ _) (List.cons_ne_nil _ _)]
      dsimp only
      -- no mark begins after the first character, so the name goes on
      rw [ih (List.cons_ne_nil d front) hlater, List.length_cons, List.length_cons,
        List.length_cons, Nat.add_right_comm, Nat.add_assoc]

theorem exists_mark_of_split? {text : Text} {length : Nat} {found : Nat × Remainder}
    (h : split? length text = some found) : ∃ m, IsMark m ∧ m <:+: text := by
  induction text generalizing length with
  | nil => cases h
  | cons c rest ih =>
    rw [split?] at h
    split at h
    · rename_i r hr
      obtain ⟨m, hmark, hprefix⟩ := exists_mark hr
      exact ⟨m, hmark, hprefix.isInfix.trans (List.suffix_cons c rest).isInfix⟩
    · obtain ⟨m, hmark, hinside⟩ := ih h
      exact ⟨m, hmark, hinside.trans (List.suffix_cons c rest).isInfix⟩

/-- A mark does not begin inside a name without marks, for the bracket of the mark behind the name
would stand in it. -/
theorem remainder?_eq_none {front rest : Text} (hfront : ∀ m, IsMark m → ¬m <:+: front)
    (hne : front ≠ []) (hrest : rest.head? = some '(') : remainder? (front ++ rest) = none := by
  cases hr : remainder? (front ++ rest) with
  | none => rfl
  | some r =>
    obtain ⟨m, hmark, hprefix⟩ := exists_mark hr
    exfalso
    -- either the mark ends in the name, or it takes in the bracket that follows the name
    rcases List.prefix_or_prefix_of_prefix hprefix (List.prefix_append front rest) with
      hinside | ⟨more, rfl⟩
    · exact hfront m hmark hinside.isInfix
    · obtain ⟨c, front, rfl⟩ := List.exists_cons_of_ne_nil hne
      have hmore : more ≠ [] := by
        rintro rfl
        exact hfront _ hmark ⟨[], [], by simp⟩
      obtain ⟨d, more, rfl⟩ := List.exists_cons_of_ne_nil hmore
      obtain ⟨after, hafter⟩ := hprefix
      rw [List.append_assoc, List.append_cancel_left_eq] at hafter
      rw [← hafter, List.cons_append, List.head?_cons, Option.some.injEq] at hrest
      exact @IsMark.not_mem c (front ++ d :: more) hmark (by simp [hrest])

/-! ### Messages -/

/-- The line that tells a message. -/
def written (m : CompilerMessage) : Text :=
  m.file ++ '(' :: (ofNat m.line ++ ',' :: (ofNat m.column ++
    ("): error ".toList ++ (m.code ++ (": ".toList ++ m.text)))))

/-- A message that its line tells apart from any other: the name of its file neither begins with a
blank nor holds a mark, its code is a number, its text is trimmed, and no line ends inside it. -/
structure Legible (m : CompilerMessage) : Prop where
  begins : m.file.Begins Solid
  unmarked : ∀ text, IsMark text → ¬text <:+: m.file
  code : ∃ n, m.code = 'T' :: 'S' :: ofNat n
  text_ne_nil : m.text ≠ []
  trimmed : m.text.trim = m.text
  unbroken : Unbroken m.file ∧ Unbroken m.text

/-- The place of the message is written with as many digits as can be read. -/
def InBounds (m : CompilerMessage) : Prop :=
  m.line < 10 ^ Literal.maxIntegerDigits ∧ m.column < 10 ^ Literal.maxIntegerDigits

theorem written_eq {m : CompilerMessage} {n : Nat} (hcode : m.code = 'T' :: 'S' :: ofNat n) :
    m.written = m.file ++ (mark (ofNat m.line) (ofNat m.column) (ofNat n) ++ m.text) := by
  rw [written, hcode, mark_append]
  rfl

theorem unbroken_ofNat (n : Nat) : Unbroken (ofNat n) := by
  intro c hc
  have hbounds : 48 ≤ c.toNat ∧ c.toNat ≤ 57 := by
    simpa [Char.isDigit, UInt32.le_iff_toNat_le] using
      Nat.isDigit_of_mem_toDigits (by decide) (by decide) hc
  simp only [isLineBreak, Bool.or_eq_false_iff, Bool.and_eq_false_iff, decide_eq_false_iff_not,
    beq_eq_false_iff_ne]
  omega

theorem finishes_trim {text : Text} (h : text.trim ≠ []) : text.trim.Finishes Solid := by
  have hne : text.trimStart.reverse.dropWhile isBlank ≠ [] := by
    intro hnil
    rw [trim, trimEnd, hnil] at h
    exact h rfl
  obtain ⟨c, rest, hrest⟩ := List.exists_cons_of_ne_nil hne
  have hstop := List.head?_dropWhile_not isBlank text.trimStart.reverse
  rw [hrest] at hstop
  refine ⟨c, ?_, hstop⟩
  rw [trim, trimEnd, hrest, List.getLast?_reverse, List.head?_cons]

namespace Legible

variable {m : CompilerMessage} (h : m.Legible)
include h

theorem unbroken_written : Unbroken m.written := by
  obtain ⟨n, hcode⟩ := h.code
  rw [written, hcode]
  have herror : Unbroken "): error ".toList := by decide
  have hcolon : Unbroken ": ".toList := by decide
  simp only [Unbroken, List.forall_mem_append, List.forall_mem_cons]
  exact ⟨h.unbroken.1, rfl, unbroken_ofNat _, rfl, unbroken_ofNat _, herror,
    ⟨rfl, rfl, unbroken_ofNat _⟩, hcolon, h.unbroken.2⟩

theorem written_ne_nil : m.written ≠ [] := (h.begins.append _).ne_nil

theorem trim_written : m.written.trim = m.written := by
  obtain ⟨n, hcode⟩ := h.code
  have hfinishes : m.text.Finishes Solid := by
    have htrim := finishes_trim (h.trimmed.symm ▸ h.text_ne_nil)
    rwa [h.trimmed] at htrim
  rw [written_eq hcode]
  exact trim_eq_self (h.begins.append _) ((hfinishes.append _).append _)

theorem split?_written {n : Nat} (hcode : m.code = 'T' :: 'S' :: ofNat n) :
    split? 0 m.written =
      some (m.file.length, ⟨ofNat m.line, ofNat m.column, ofNat n, m.text⟩) := by
  rw [written_eq hcode]
  have hread := @split?_append m.file
    (mark (ofNat m.line) (ofNat m.column) (ofNat n) ++ m.text)
    ⟨ofNat m.line, ofNat m.column, ofNat n, m.text⟩ h.begins.ne_nil
    (remainder?_eq_some_iff.mpr ⟨isNumber_ofNat _, isNumber_ofNat _, isNumber_ofNat _, rfl⟩) ?_ 0
  · rwa [Nat.zero_add] at hread
  · intro before after hsplit _ hafter
    refine remainder?_eq_none (fun text hmark hinside => h.unmarked text hmark ?_) hafter rfl
    rw [hsplit]
    exact hinside.trans (List.suffix_append before after).isInfix

theorem ofLine?_written_eq_ok_iff {found : Option CompilerMessage} :
    ofLine? m.written.trim = .ok found ↔ m.InBounds ∧ found = some m := by
  obtain ⟨n, hcode⟩ := h.code
  have htake : m.written.take m.file.length = m.file := by
    rw [written, List.take_left]
  rw [h.trim_written, ofLine?, h.split?_written hcode, InBounds]
  dsimp only [ofRemainder]
  rw [htake, natural_ofNat, natural_ofNat, h.trimmed, ← hcode]
  by_cases hline : m.line < 10 ^ Literal.maxIntegerDigits
  · by_cases hcolumn : m.column < 10 ^ Literal.maxIntegerDigits
    · rw [if_pos hline, if_pos hcolumn]
      simp [hline, hcolumn, Except.map, bind, Except.bind, pure, Except.pure, eq_comm]
    · rw [if_pos hline, if_neg hcolumn]
      simp [hcolumn, Except.map, bind, Except.bind]
  · rw [if_neg hline]
    simp [hline, Except.map, bind, Except.bind]

end Legible

end CompilerMessage

/-! ### Outputs -/

/-- A line of output: one that tells a message, or any other. -/
inductive OutputLine
  | message (m : CompilerMessage)
  | other (text : Text)

namespace OutputLine

/-- The line as it is written. -/
def text : OutputLine → Text
  | .message m => m.written
  | .other text => text

/-- The message that the line tells. -/
def message? : OutputLine → Option CompilerMessage
  | .message m => some m
  | .other _ => none

/-- What the line tells is seen from it; a line without a message holds nothing of a mark's kind. -/
def Legible : OutputLine → Prop
  | .message m => m.Legible
  | .other text => Unbroken text ∧ ¬": error TS".toList <:+: text

variable {entry : OutputLine}

theorem Legible.unbroken_text (h : entry.Legible) : Unbroken entry.text := by
  cases entry with
  | message m => exact CompilerMessage.Legible.unbroken_written h
  | other text => exact h.1

theorem ofLine?_other {text : Text} (h : ¬": error TS".toList <:+: text) :
    CompilerMessage.ofLine? text.trim = .ok none := by
  rw [CompilerMessage.ofLine?]
  cases hsplit : CompilerMessage.split? 0 text.trim with
  | none => rfl
  | some found =>
    obtain ⟨m, hmark, hinside⟩ := CompilerMessage.exists_mark_of_split? hsplit
    obtain ⟨before, after, htext, -, -⟩ := exists_eq_trim text
    exfalso
    apply h
    rw [htext]
    exact hmark.holds_error.trans (hinside.trans ⟨before, after, rfl⟩)

theorem Legible.ofLine?_eq_ok_iff (h : entry.Legible) {found : Option CompilerMessage} :
    CompilerMessage.ofLine? entry.text.trim = .ok found ↔
      (∀ m ∈ entry.message?, m.InBounds) ∧ found = entry.message? := by
  cases entry with
  | message m =>
    refine (CompilerMessage.Legible.ofLine?_written_eq_ok_iff h).trans (and_congr_left fun _ => ?_)
    simp [message?]
  | other text =>
    rw [OutputLine.text, ofLine?_other h.2]
    simp [message?, eq_comm]

end OutputLine

namespace CompilerMessage

/-- The messages that are read from lines are those that the lines tell, as long as the places of
all of them can be read. -/
theorem filterMapM_ofLine?_eq_ok_iff {entries : List OutputLine} {messages : List CompilerMessage}
    (h : ∀ entry ∈ entries, entry.Legible) :
    (entries.map OutputLine.text).filterMapM (fun line => ofLine? line.trim) = .ok messages ↔
      (∀ m ∈ entries.filterMap OutputLine.message?, m.InBounds) ∧
        messages = entries.filterMap OutputLine.message? := by
  induction entries generalizing messages with
  | nil =>
    rw [List.map_nil, List.filterMapM_nil]
    simp [pure, Except.pure, eq_comm]
  | cons entry entries ih =>
    obtain ⟨hentry, hentries⟩ := List.forall_mem_cons.mp h
    have hlater := fun messages => @ih messages hentries
    rw [List.map_cons, List.filterMapM_cons, List.filterMap_cons]
    cases hfound : ofLine? entry.text.trim with
    | error e =>
      refine iff_of_false (by simp [bind, Except.bind]) fun hall => ?_
      have hread : ofLine? entry.text.trim = .ok entry.message? :=
        hentry.ofLine?_eq_ok_iff.mpr
          ⟨fun m hm => hall.1 m (by rw [hm]; exact List.mem_cons_self), rfl⟩
      cases hfound.symm.trans hread
    | ok found =>
      obtain ⟨hbounds, rfl⟩ := hentry.ofLine?_eq_ok_iff.mp hfound
      cases hmessage : entry.message? with
      | none => exact hlater messages
      | some m =>
        rw [hmessage] at hbounds
        change (List.filterMapM _ _ >>= fun later => .ok (m :: later)) = Except.ok messages ↔ _
        rw [bind_eq_ok_iff]
        simp only [hlater, List.forall_mem_cons, hbounds m rfl, true_and, Except.ok.injEq]
        constructor
        · rintro ⟨later, ⟨hall, rfl⟩, rfl⟩
          exact ⟨hall, rfl⟩
        · rintro ⟨hall, rfl⟩
          exact ⟨_, ⟨hall, rfl⟩, rfl⟩

theorem all_eq_ok_iff {entries : List OutputLine} {output : Text} {messages : List CompilerMessage}
    (h : ∀ entry ∈ entries, entry.Legible)
    (hwrites : Writes (entries.map OutputLine.text) output) : all output = .ok messages ↔
      (∀ m ∈ entries.filterMap OutputLine.message?, m.InBounds) ∧
        messages = entries.filterMap OutputLine.message? := by
  have hunbroken : ∀ line ∈ entries.map OutputLine.text, Unbroken line :=
    List.forall_mem_map.mpr fun entry hentry => (h entry hentry).unbroken_text
  rw [all, lines_of_writes hwrites hunbroken]
  exact filterMapM_ofLine?_eq_ok_iff h

/-- The messages that lines tell are read back from the output that the lines write, in order and
among any other lines, exactly if the line and the column of each have at most as many digits as can
be read. -/
theorem all_of_written {entries : List OutputLine} {output : Text}
    (h : ∀ entry ∈ entries, entry.Legible)
    (hwrites : Writes (entries.map OutputLine.text) output) :
    all output = .ok (entries.filterMap OutputLine.message?) ↔
      ∀ m ∈ entries.filterMap OutputLine.message?, m.InBounds :=
  (all_eq_ok_iff h hwrites).trans (and_iff_left rfl)

theorem inBounds_of_lt {m : CompilerMessage} (hline : m.line < 100) (hcolumn : m.column < 100) :
    m.InBounds := by
  have hpow : 10 ^ 2 ≤ 10 ^ Literal.maxIntegerDigits := Nat.pow_le_pow_right (by decide) (by decide)
  exact ⟨Nat.lt_of_lt_of_le hline hpow, Nat.lt_of_lt_of_le hcolumn hpow⟩

/-- A file with brackets in its name, and a text that quotes another message. -/
def quotingMessage : CompilerMessage :=
  ⟨"src/(a, b) .ts".toList, 3, 14, "TS2322".toList, "see b.ts(1,2): error TS3: 'x'".toList⟩

theorem all_quoting :
    let entries : List OutputLine :=
      [.message quotingMessage, .other "Found 2 errors.".toList, .message quotingMessage]
    let output := quotingMessage.written ++ (['\r', '\n'] ++
      ("Found 2 errors.".toList ++ (['\x0b'] ++ quotingMessage.written)))
    (∀ entry ∈ entries, entry.Legible) ∧ Writes (entries.map OutputLine.text) output ∧
      all output = .ok [quotingMessage, quotingMessage] := by
  intro entries output
  have hmessage : quotingMessage.Legible :=
    ⟨⟨'s', rfl, by decide⟩,
      fun text hmark hinside => absurd (hmark.holds_error.trans hinside) (by decide +kernel),
      ⟨2322, by decide +kernel⟩, by decide, by decide +kernel, by decide +kernel⟩
  have hother : OutputLine.Legible (.other "Found 2 errors.".toList) :=
    ⟨by decide +kernel, by decide +kernel⟩
  have hentries : ∀ entry ∈ entries, entry.Legible :=
    List.forall_mem_cons.mpr ⟨hmessage, List.forall_mem_cons.mpr
      ⟨hother, List.forall_mem_cons.mpr ⟨hmessage, by simp⟩⟩⟩
  have hwrites : Writes (entries.map OutputLine.text) output :=
    .line .returnFeed (by decide) (.line (.char rfl) (by decide) (.last (by decide)))
  have hbounds : quotingMessage.InBounds := inBounds_of_lt (by decide) (by decide)
  have hall : ∀ m ∈ [quotingMessage, quotingMessage], m.InBounds :=
    List.forall_mem_cons.mpr ⟨hbounds, List.forall_mem_singleton.mpr hbounds⟩
  exact ⟨hentries, hwrites, (all_of_written hentries hwrites).mpr hall⟩

/-- A message whose line number has one digit too many. -/
def farMessage : CompilerMessage :=
  ⟨"a.ts".toList, 10 ^ Literal.maxIntegerDigits, 1, "TS1".toList, "x".toList⟩

/-- A message on a line of which the number is too long is not read back. -/
theorem all_farMessage_ne :
    farMessage.Legible ∧ Writes [farMessage.written] farMessage.written ∧
      all farMessage.written ≠ .ok [farMessage] := by
  have hmessage : farMessage.Legible :=
    ⟨⟨'a', rfl, by decide⟩,
      fun text hmark hinside => absurd (hmark.holds_error.trans hinside) (by decide +kernel),
      ⟨1, by decide +kernel⟩, by decide, by decide +kernel, by decide +kernel⟩
  have hwrites : Writes [farMessage.written] farMessage.written := .last hmessage.written_ne_nil
  refine ⟨hmessage, hwrites, fun hall => ?_⟩
  obtain ⟨hbounds, -⟩ := (@all_eq_ok_iff [.message farMessage] _ _
    (List.forall_mem_singleton.mpr hmessage) hwrites).mp hall
  exact Nat.lt_irrefl _ (hbounds farMessage List.mem_cons_self).1

end CompilerMessage

end ForeignBindings
