import ForeignBindings.Descriptor.Description
import ForeignBindings.Proofs.Nesting.Reading

/-! Identifiers, dotted paths and labels of type texts.  Their characters are no blanks, brackets,
quotes or separators, so they are read as they stand. -/

namespace ForeignBindings

open Text

theorem flat_of_isWordChar {c : Char} (h : isWordChar c = true ∨ c = '.') :
    Inert c ∧ bracket? c = none := by
  rcases h with h | rfl
  · refine ⟨⟨?_, ne_of_isWordChar h rfl⟩, bracket?_eq_none h (by decide)⟩
    simp [isQuote, ne_of_isWordChar (d := '\x22') h rfl, ne_of_isWordChar (d := '\x27') h rfl,
      ne_of_isWordChar (d := '\x60') h rfl]
  · exact ⟨⟨rfl, by decide⟩, rfl⟩

theorem singleton_ne_of_path {c d : Char} (hc : isWordChar c = true ∨ c = '.')
    (hd : isWordChar d = false) (hdot : d ≠ '.') : [d] ≠ [c] := by
  rcases hc with hc | rfl
  · exact singleton_ne_of_isWordChar hc hd
  · intro heq
    exact hdot (List.cons.inj heq).1

/-- An identifier: ASCII letters, digits and underscores, no digit first. -/
structure Identifier where
  text : Text
  valid : TypeText.isIdentifier text = true

namespace Identifier

theorem isWordChar_of_mem (name : Identifier) {c : Char} (h : c ∈ name.text) :
    isWordChar c = true := by
  have hall := name.valid
  rw [TypeText.isIdentifier, Bool.and_eq_true, List.all_eq_true] at hall
  exact hall.2 c h

theorem begins (name : Identifier) : name.text.Begins fun c => (c.isAlpha || c == '_') = true := by
  have hany := name.valid
  rw [TypeText.isIdentifier, Bool.and_eq_true] at hany
  cases hhead : name.text.head? with
  | none => simp [hhead] at hany
  | some c => exact ⟨c, hhead, by simpa [hhead] using hany.1⟩

theorem ne_nil (name : Identifier) : name.text ≠ [] := name.begins.ne_nil

theorem begins_word (name : Identifier) : name.text.Begins (isWordChar · = true) := by
  obtain ⟨c, hc, -⟩ := name.begins
  exact ⟨c, hc, name.isWordChar_of_mem (List.mem_of_head? hc)⟩

theorem finishes_word (name : Identifier) : name.text.Finishes (isWordChar · = true) := by
  refine ⟨name.text.getLast name.ne_nil, List.getLast?_eq_some_getLast name.ne_nil, ?_⟩
  exact name.isWordChar_of_mem (List.getLast_mem name.ne_nil)

theorem begins_solid (name : Identifier) : name.text.Begins Solid :=
  name.begins_word.mono fun _ hc => solid_of_isWordChar hc

theorem finishes_solid (name : Identifier) : name.text.Finishes Solid :=
  name.finishes_word.mono fun _ hc => solid_of_isWordChar hc

theorem undivided (name : Identifier) {separator : Text}
    (h : ∀ c, isWordChar c = true → separator ≠ [c]) : Undivided separator name.text := by
  apply undivided_flat
  intro c hc
  have hword := name.isWordChar_of_mem hc
  obtain ⟨hinert, hbracket⟩ := flat_of_isWordChar (.inl hword)
  exact ⟨hinert, hbracket, h c hword⟩

theorem dropWhile_append (name : Identifier) {p : Char → Bool}
    (hp : ∀ c, isWordChar c = true → p c = true) (rest : Text) :
    (name.text ++ rest).dropWhile p = rest.dropWhile p :=
  List.dropWhile_append_of_pos fun c hc => hp c (name.isWordChar_of_mem hc)

/-- A single quote before an identifier opens no character literal, unless another one follows. -/
theorem charTail?_append (name : Identifier) {rest : Text} (h : rest.head? ≠ some '\x27') :
    charTail? (name.text ++ rest) = none := by
  obtain ⟨c, more, htext, hc⟩ := name.begins_word.cons_eq
  have hnext : (more ++ rest).head? ≠ some '\x27' := by
    cases more with
    | nil => exact h
    | cons d more =>
      have hd : isWordChar d = true := name.isWordChar_of_mem (by simp [htext])
      simpa using ne_of_isWordChar (d := '\x27') hd rfl
  rw [htext, List.cons_append, charTail?.eq_3 _ _ fun heq => ?_]
  · exact if_neg fun hchar => hnext hchar.2.2
  · exact ne_of_isWordChar hc rfl heq

theorem undivided_variable (name : Identifier) {separator : Text}
    (hword : ∀ c, isWordChar c = true → separator ≠ [c]) (hquote : separator ≠ ['\x27']) :
    Undivided separator ('\x27' :: name.text) := by
  have hname := name.undivided hword
  have hpieces : pieces ('\x27' :: name.text) = .plain '\x27' :: name.text.pieces :=
    pieces_prime (by simpa using @charTail?_append name [] (by simp))
  refine ⟨?_, ?_, ?_⟩
  · intro rest hrest
    rw [List.cons_append, pieces_prime (name.charTail?_append hrest), hpieces,
      hname.standalone rest hrest, List.cons_append]
  · rw [isBalanced, hpieces]
    exact hname.balanced
  · rw [hpieces]
    exact ⟨fun hsep => hquote (by simpa [Piece.separator?] using hsep.2.symm), hname.lacks⟩

end Identifier

/-- A dotted name: identifiers with dots between them. -/
structure NamePath where
  first : Identifier
  rest : List Identifier

namespace NamePath

def text (path : NamePath) : Text :=
  Text.join ['.'] (path.first.text :: path.rest.map Identifier.text)

theorem isWordChar_of_mem_join {names : List Identifier} {c : Char}
    (h : c ∈ Text.join ['.'] (names.map Identifier.text)) : isWordChar c = true ∨ c = '.' := by
  induction names with
  | nil => simp at h
  | cons name more ih =>
    cases more with
    | nil => exact .inl (name.isWordChar_of_mem (by simpa using h))
    | cons next more =>
      rw [List.map_cons, List.map_cons, join_cons_cons, ← List.map_cons, List.mem_append,
        List.mem_append] at h
      rcases h with (h | h) | h
      · exact .inl (name.isWordChar_of_mem h)
      · exact .inr (List.mem_singleton.mp h)
      · exact ih h

theorem isWordChar_of_mem (path : NamePath) {c : Char} (h : c ∈ path.text) :
    isWordChar c = true ∨ c = '.' :=
  @isWordChar_of_mem_join (path.first :: path.rest) c h

theorem begins_word (path : NamePath) : path.text.Begins (isWordChar · = true) :=
  path.first.begins_word.join _

theorem finishes_word (path : NamePath) : path.text.Finishes (isWordChar · = true) := by
  apply finishes_join (by simp)
  intro text htext
  obtain ⟨name, -, rfl⟩ :=
    List.mem_map.mp (show text ∈ (path.first :: path.rest).map Identifier.text from htext)
  exact name.finishes_word

theorem begins_solid (path : NamePath) : path.text.Begins Solid :=
  path.begins_word.mono fun _ hc => solid_of_isWordChar hc

theorem finishes_solid (path : NamePath) : path.text.Finishes Solid :=
  path.finishes_word.mono fun _ hc => solid_of_isWordChar hc

theorem begins_ne (path : NamePath) {d : Char} (hd : isWordChar d = false) :
    path.text.Begins (· ≠ d) :=
  path.begins_word.mono fun _ hc => ne_of_isWordChar hc hd

theorem undivided (path : NamePath) {separator : Text}
    (h : ∀ c, isWordChar c = true ∨ c = '.' → separator ≠ [c]) :
    Undivided separator path.text := by
  apply undivided_flat
  intro c hc
  have hword := path.isWordChar_of_mem hc
  obtain ⟨hinert, hbracket⟩ := flat_of_isWordChar hword
  exact ⟨hinert, hbracket, h c hword⟩

theorem contains_or_isIdentifier (path : NamePath) :
    path.text.contains '.' = true ∨ TypeText.isIdentifier path.text = true := by
  obtain ⟨first, rest⟩ := path
  cases rest with
  | nil => exact .inr (by simpa [text] using first.valid)
  | cons next more =>
    left
    rw [text, List.map_cons, join_cons_cons]
    simp

end NamePath

/-- A field of a record: whether it is marked as mutable, its name, and its type in some form. -/
structure Field (α : Type) where
  isMutable : Bool
  name : Identifier
  type : α

def Field.text (f : Field Text) : Text :=
  (if f.isMutable then "mutable ".toList else []) ++ (f.name.text ++ ':' :: ' ' :: f.type)

/-- How a parameter is passed: by its place, by a label, or by a label that may be left out. -/
inductive Label
  | positional
  | required (name : Identifier)
  | optional (name : Identifier)

/-- A parameter passed this way from the description of its type: it is an option if it may be left
out. -/
def Label.described (label : Label) (type : Description) : Description :=
  match label with
  | .optional _ => type.map fun d => .wrapper Descriptor.optionName [d]
  | _ => type

/-- A parameter of a function, with its type in some form. -/
structure Param (α : Type) where
  label : Label
  type : α

def Param.text (p : Param Text) : Text :=
  match p.label with
  | .positional => p.type
  | .required name => '~' :: (name.text ++ ':' :: ' ' :: p.type)
  | .optional name => '~' :: (name.text ++ ':' :: ' ' :: (p.type ++ ['=', '?']))

end ForeignBindings
