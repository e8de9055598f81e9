import Mathlib.Data.Bool.AllAny
import ForeignBindings.Proofs.Declaration.Setting
import ForeignBindings.Proofs.Declaration.Written

/-! Scanning undoes printing.  Declarations that are printed one behind the other, each after its
annotations, are what the scan of the text finds: whatever the strings hold, and whatever equals
signs and arrows stand in the brackets of the types. -/

namespace ForeignBindings

open Text Lexer

/-- A declaration that can be printed, and how: its annotations in an order, with blanks before the
first of them or before the keyword, and blanks after each. -/
structure PrintedDeclaration where
  name : Text
  type : Text
  binding : Text
  attributes : Attributes
  indent : Text
  settings : List (Setting × Text)
  name_start : name.head?.any isIdentifierStart = true
  name_chars : name.all isIdentifierChar = true
  name_ne : name ≠ "external".toList
  type_trim : type.trim = type
  type_bare : ∀ c ∈ type, Bare c
  type_balanced : type.isBalanced = true
  type_undivided : type.findTop? ['='] = none
  binding_quotable : Quotable binding
  settings_perm : (settings.map Prod.fst).Perm attributes.settings
  settings_writable : ∀ a ∈ attributes.settings, a.Writable
  settings_apart : ∀ a ∈ settings, a.2 ≠ []
  settings_blank : ∀ a ∈ settings, a.2.all isBlank = true
  indent_blank : indent.all isBlank = true

def headingText (settings : List (Setting × Text)) : Text :=
  settings.flatMap fun a => a.1.text ++ a.2

namespace PrintedDeclaration

variable (p : PrintedDeclaration)

def heading : Text := p.indent ++ headingText p.settings

def afterKeyword : Text :=
  ' ' :: (p.name ++ ':' :: ' ' :: (p.type ++ ' ' :: '=' :: ' ' :: stringLiteral p.binding))

/-- The declaration from its keyword to its binding. -/
def body : Text := "external".toList ++ p.afterKeyword

def text : Text := p.heading ++ p.body

/-- The declaration, if its keyword stands behind the text `front`. -/
def declaration (file front : Text) : Declaration where
  name := p.name
  binding := p.binding
  typeText := p.type
  attributes := p.attributes
  file := file
  line := front.count '\n' + 1
  column := (front.reverse.takeWhile (· != '\n')).length + 1

end PrintedDeclaration

namespace PrintedDeclaration

variable (p : PrintedDeclaration)

theorem bareType_type : BareType p.type :=
  ⟨p.type_trim, p.type_bare, p.type_balanced, p.type_undivided⟩

/-- After the keyword, the attempt reads the declaration and stops right behind it. -/
theorem attempt_afterKeyword (file : Text) (pending : Attributes) (keyword : Token)
    (place : Position) (more : Text) :
    attempt file pending keyword (tokensFrom [] place (p.afterKeyword ++ more)) =
      (some ⟨p.name, p.binding, p.type, pending, file, keyword.start.line, keyword.start.column⟩,
        tokensFrom [] (place.advance p.afterKeyword) more) := by
  let afterColon := ((place.step ' ').advance p.name).advance [':']
  obtain ⟨type, blanks, hspells, hspanned, htype⟩ :=
    p.bareType_type.tokensFrom (afterColon.step ' ')
  have htext : p.afterKeyword ++ more = ' ' :: (p.name ++ ':' :: ' ' :: (p.type ++
      ' ' :: '=' :: ' ' :: (stringLiteral p.binding ++ more))) := by
    simp [afterKeyword]
  have hplace : (((((afterColon.step ' ').advance p.type).step ' ').advance ['=']).step ' ').advance
      (stringLiteral p.binding) = place.advance p.afterKeyword := by
    simp [afterColon, afterKeyword, Position.advance]
  rw [htext, tokensFrom_opening p.name_start p.name_chars p.name_ne,
    tokensFrom_blank (by decide), List.nil_append, htype, tokensFrom_bound p.binding_quotable,
    hplace, attempt_declaration _ _ _ rfl rfl hspells.unended hspells.balanced rfl rfl, hspanned]

theorem declarations_body (file : Text) (pending : Attributes) (leading : Text) (place : Position)
    (more : Text) :
    declarations file pending (tokensFrom leading place (p.body ++ more)) =
      ⟨p.name, p.binding, p.type, pending, file, place.line, place.column⟩ ::
        declarations file .empty (tokensFrom [] (place.advance p.body) more) := by
  have hkeyword : wordLexeme "external".toList = .external := by decide
  have hafter : (p.afterKeyword ++ more).head?.any isIdentifierChar = false :=
    show isIdentifierChar ' ' = false by decide
  have hbody : p.body ++ more = "external".toList ++ (p.afterKeyword ++ more) :=
    List.append_assoc _ _ _
  have hplace : place.advance p.body = (place.advance "external".toList).advance p.afterKeyword :=
    Position.advance_append _ _ _
  rw [hbody, hplace, tokensFrom_word (by decide) (by decide) hafter, hkeyword, declarations]
  simp only [attempt_afterKeyword, Option.toList_some, List.singleton_append]

end PrintedDeclaration

/-! ### Printed declarations -/

theorem begins_headingText {settings : List (Setting × Text)} {more : Text}
    (hmore : more.Begins fun c => isBlank c = false ∧ c ≠ '(') :
    Begins (fun c => isBlank c = false ∧ c ≠ '(') (headingText settings ++ more) := by
  cases settings with
  | nil => exact hmore
  | cons a settings => exact ⟨'@', rfl, by decide, by decide⟩

/-- After annotations, what they say is pending. -/
theorem declarations_heading (file : Text) {settings : List (Setting × Text)}
    (hwritable : ∀ a ∈ settings, a.1.Writable)
    (hapart : ∀ a ∈ settings, a.2 ≠ [])
    (hblank : ∀ a ∈ settings, a.2.all isBlank = true) {more : Text}
    (hmore : more.Begins fun c => isBlank c = false ∧ c ≠ '(') (pending : Attributes)
    (leading : Text) (place : Position) :
    ∃ leading', declarations file pending
        (tokensFrom leading place (headingText settings ++ more)) =
      declarations file ((settings.map Prod.fst).foldl Attributes.put pending)
        (tokensFrom leading' (place.advance (headingText settings)) more) := by
  induction settings generalizing pending leading place with
  | nil => exact ⟨leading, rfl⟩
  | cons a settings ih =>
    rw [List.forall_mem_cons] at hwritable hapart hblank
    obtain ⟨leading', hrest⟩ := ih hwritable.2 hapart.2 hblank.2 (pending.put a.1) a.2
      ((place.advance a.1.text).advance a.2)
    have htext : headingText (a :: settings) = a.1.text ++ (a.2 ++ headingText settings) := by
      simp [headingText]
    refine ⟨leading', ?_⟩
    rw [htext, List.append_assoc, List.append_assoc, tokensFrom_setting hwritable.1 hapart.1
      (List.all_eq_true.mp hblank.1) (begins_headingText hmore), declarations]
    simp only
    rw [Attributes.apply_decorator, hrest, Position.advance_append, Position.advance_append]
    rfl

namespace PrintedDeclaration

variable (p : PrintedDeclaration)

theorem declarations_text (file front leading more : Text) :
    declarations file .empty (tokensFrom leading (Position.start.advance front) (p.text ++ more)) =
      p.declaration file (front ++ p.heading) ::
        declarations file .empty
          (tokensFrom [] (Position.start.advance (front ++ p.text)) more) := by
  have hwritable : ∀ a ∈ p.settings, a.1.Writable := fun a ha =>
    p.settings_writable a.1 (p.settings_perm.subset (List.mem_map_of_mem ha))
  have hbegins : (p.body ++ more).Begins fun c => isBlank c = false ∧ c ≠ '(' :=
    ⟨'e', rfl, by decide, by decide⟩
  obtain ⟨leading', hheading⟩ := declarations_heading file hwritable p.settings_apart
    p.settings_blank hbegins .empty (leading ++ p.indent)
    ((Position.start.advance front).advance p.indent)
  have hplace : ((Position.start.advance front).advance p.indent).advance
      (headingText p.settings) = Position.start.advance (front ++ p.heading) := by
    rw [← Position.advance_append, ← Position.advance_append, heading]
  obtain ⟨hline, hcolumn⟩ := Position.advance_start (front ++ p.heading)
  rw [text, heading, List.append_assoc, List.append_assoc,
    tokensFrom_blanks (List.all_eq_true.mp p.indent_blank), hheading, hplace, declarations_body,
    Attributes.foldl_put_perm p.settings_perm, hline, hcolumn, ← Position.advance_append, heading,
    List.append_assoc]
  rfl

theorem declarations_texts (file : Text) (ps : List PrintedDeclaration) {trailing : Text}
    (h : ∀ c ∈ trailing, isBlank c = true) (front leading : Text) :
    declarations file .empty
        (tokensFrom leading (Position.start.advance front) (ps.flatMap text ++ trailing)) =
      ps.mapIdx fun i p =>
        p.declaration file (front ++ ((ps.take i).flatMap text ++ p.heading)) := by
  induction ps generalizing front leading with
  | nil =>
    have hblanks := tokensFrom_blanks h leading [] (Position.start.advance front)
    rw [List.append_nil, tokensFrom_nil] at hblanks
    rw [List.flatMap_nil, List.nil_append, hblanks]
    simp [declarations]
  | cons p ps ih =>
    rw [List.flatMap_cons, List.append_assoc, declarations_text, ih, List.mapIdx_cons]
    simp

end PrintedDeclaration

/-- The scan of printed declarations gives the declarations back, in order, each with the place of
its keyword. -/
theorem scan_printed (file : Text) (ps : List PrintedDeclaration) {trailing : Text}
    (h : ∀ c ∈ trailing, isBlank c = true) :
    scan file (ps.flatMap PrintedDeclaration.text ++ trailing) =
      ps.mapIdx fun i p =>
        p.declaration file ((ps.take i).flatMap PrintedDeclaration.text ++ p.heading) :=
  PrintedDeclaration.declarations_texts file ps h [] []

/-- Strings that hold brackets, commas, a keyword and a line feed, and a type that holds an arrow
and equals signs in brackets. -/
def PrintedDeclaration.nested : PrintedDeclaration where
  name := "f'".toList
  type := "(~a: int=?, <b = c>) => t".toList
  binding := "external x: int = \n, (".toList
  attributes :=
    { Attributes.empty with
      importPath := some "a, (b)".toList
      scope := some ["w".toList, ")".toList]
      send := true
      rename := some "external".toList }
  indent := ['\n']
  settings :=
    [(.scope ["w".toList, ")".toList], [' ']), (.flag .send, "\n\t".toList),
      (.rename "external".toList, [' ']), (.importPath "a, (b)".toList, ['\n'])]
  name_start := by decide
  name_chars := by decide
  name_ne := by decide
  type_trim := by decide
  type_bare := List.all_iff_forall_prop.mp (by decide)
  type_balanced := by decide +kernel
  type_undivided := by decide +kernel
  binding_quotable := by decide
  settings_perm := by decide
  settings_writable := by decide
  settings_apart := by decide
  settings_blank := by decide
  indent_blank := by decide

/-- Two such declarations one behind the other: nothing leaks from the first to the second. -/
theorem scan_nested_twice :
    let d := PrintedDeclaration.nested
    (∀ c ∈ ['\n'], isBlank c = true) ∧
      scan "A.res".toList ([d, d].flatMap PrintedDeclaration.text ++ ['\n']) =
        [⟨d.name, d.binding, d.type, d.attributes, "A.res".toList, 4, 1⟩,
          ⟨d.name, d.binding, d.type, d.attributes, "A.res".toList, 8, 1⟩] := by
  intro d
  have hblank : ∀ c ∈ ['\n'], isBlank c = true := List.forall_mem_singleton.mpr (by decide)
  exact ⟨hblank, (scan_printed "A.res".toList [d, d] hblank).trans (by decide +kernel)⟩

end ForeignBindings
