import ForeignBindings.Proofs.Descriptor.Word

/-! The texts that can stand as a type, as a field or as a parameter.  Each form of a type is such a
text as soon as the parts in it are. -/

namespace ForeignBindings.TypeText

open Text Depth

/-- A part that can be a type: it is taken for no label and for no mark of an uncurried function,
and it does not end like an optional parameter. -/
structure IsType (text : Text) : Prop extends IsPart text where
  opens : text.Begins fun c => c ≠ '~' ∧ c ≠ '.'
  closes : text.Finishes (· ≠ '?')

/-! ### Names and variables -/

theorem isType_path (path : NamePath) : IsType path.text where
  begins := path.begins_solid
  finishes := path.finishes_solid
  undivided := path.undivided fun _ hc => singleton_ne_of_path hc rfl (by decide)
  opens := path.begins_word.mono fun _ hc => ⟨ne_of_isWordChar hc rfl, ne_of_isWordChar hc rfl⟩
  closes := path.finishes_word.mono fun _ hc => ne_of_isWordChar hc rfl

theorem isType_variable (name : Identifier) : IsType ('\x27' :: name.text) where
  begins := begins_cons rfl
  finishes := name.finishes_solid.cons _
  undivided := name.undivided_variable (fun _ hc => singleton_ne_of_isWordChar hc rfl) (by decide)
  opens := begins_cons (by decide)
  closes := (name.finishes_word.mono fun _ hc => ne_of_isWordChar hc rfl).cons _

/-! ### Enclosed and applied parts -/

theorem isType_enclosed {parts : List Text} (hparts : ∀ part ∈ parts, IsPart part)
    {opening closing : Char} (pair : Pair opening closing) :
    IsType (enclosed opening closing (join commaBlank parts)) where
  begins := begins_cons (solid_of_bracket? pair.bracket_opening)
  finishes := finishes_concat (opening :: _) (solid_of_bracket? pair.bracket_closing)
  undivided := undivided_enclosed (standalone_join hparts) (isBalanced_join hparts) pair
    fun heq => ne_of_bracket? pair.bracket_opening rfl (List.cons.inj heq).1.symm
  opens := begins_cons ⟨ne_of_bracket? pair.bracket_opening rfl,
    ne_of_bracket? pair.bracket_opening rfl⟩
  closes := finishes_concat (opening :: _) (ne_of_bracket? pair.bracket_closing rfl)

def applied (callee : NamePath) (args : List Text) : Text :=
  callee.text ++ enclosed '<' '>' (join commaBlank args)

theorem begins_applied_ne (callee : NamePath) (args : List Text) {d : Char}
    (hd : isWordChar d = false) : (applied callee args).Begins (· ≠ d) :=
  (callee.begins_ne hd).append _

theorem undivided_applied (callee : NamePath) {args : List Text} {separator : Text}
    (hargs : ∀ arg ∈ args, IsPart arg) (hangle : separator ≠ ['<'])
    (hword : ∀ c, isWordChar c = true ∨ c = '.' → separator ≠ [c]) :
    Undivided separator (applied callee args) :=
  (callee.undivided hword).append
    (undivided_enclosed (standalone_join hargs) (isBalanced_join hargs) Pair.angle hangle)
    (by simp [enclosed])

theorem isType_applied (callee : NamePath) {args : List Text} (hargs : ∀ arg ∈ args, IsPart arg) :
    IsType (applied callee args) where
  begins := callee.begins_solid.append _
  finishes := (isType_enclosed hargs Pair.angle).finishes.append _
  undivided := undivided_applied callee hargs (by decide)
    fun _ hc => singleton_ne_of_path hc rfl (by decide)
  opens := (isType_path callee).opens.append _
  closes := (isType_enclosed hargs Pair.angle).closes.append _

/-- A function type ends like its result, and its arrow is no comma. -/
theorem isType_function {parts : List Text} {result : Text} (hparts : ∀ part ∈ parts, IsPart part)
    (hresult : IsType result) :
    IsType (enclosed '(' ')' (join commaBlank parts) ++ ' ' :: '=' :: '>' :: ' ' :: result) := by
  have hparams := isType_enclosed hparts Pair.round
  have hblank : ∀ c ∈ [' '], Inert c ∧ bracket? c = none ∧ [','] ≠ [c] := flat_blank (by decide)
  have hafter : Undivided [','] ([' '] ++ (Piece.arrowText ++ ([' '] ++ result))) :=
    ((undivided_arrow (by decide)).append (hresult.undivided.flat_append hblank)
      (by simp)).flat_append hblank
  exact {
    begins := hparams.begins.append _
    finishes := (hresult.finishes.append [' ', '=', '>', ' ']).append _
    undivided := hparams.undivided.append hafter (by simp)
    opens := hparams.opens.append _
    closes := (hresult.closes.append [' ', '=', '>', ' ']).append _ }

/-! ### Fields and parameters -/

/-- Words with colons and blanks between them do not divide the part after them. -/
theorem isPart_append {front text : Text}
    (hfront : ∀ c ∈ front, isWordChar c = true ∨ c = '~' ∨ c = ':' ∨ c = ' ')
    (hbegins : front.Begins Solid) (h : IsPart text) : IsPart (front ++ text) where
  begins := hbegins.append _
  finishes := h.finishes.append _
  undivided := by
    apply h.undivided.flat_append
    intro c hc
    rcases hfront c hc with hword | rfl | rfl | rfl
    · obtain ⟨hinert, hbracket⟩ := flat_of_isWordChar (.inl hword)
      exact ⟨hinert, hbracket, singleton_ne_of_isWordChar hword rfl⟩
    · exact ⟨⟨rfl, by decide⟩, rfl, by decide⟩
    · exact ⟨⟨rfl, by decide⟩, rfl, by decide⟩
    · exact ⟨⟨rfl, by decide⟩, rfl, by decide⟩

theorem isPart_named (name : Identifier) {type : Text} (h : IsPart type) :
    IsPart (name.text ++ ':' :: ' ' :: type) := by
  have hname : (name.text ++ [':', ' ']).Begins Solid :=
    name.begins_solid.append _
  have hchars : ∀ c ∈ name.text ++ [':', ' '],
      isWordChar c = true ∨ c = '~' ∨ c = ':' ∨ c = ' ' := by
    intro c hc
    rcases List.mem_append.mp hc with hc | hc
    · exact .inl (name.isWordChar_of_mem hc)
    · simp only [List.mem_cons, List.not_mem_nil, or_false] at hc
      exact .inr (.inr hc)
  simpa using isPart_append hchars hname h

theorem isPart_field {f : Field Text} (h : IsType f.type) : IsPart f.text := by
  obtain ⟨isMutable, name, type⟩ := f
  have hplain := isPart_named name h.toIsPart
  cases isMutable with
  | false => exact hplain
  | true =>
    have hchars : ∀ c ∈ "mutable ".toList, isWordChar c = true ∨ c = '~' ∨ c = ':' ∨ c = ' ' := by
      simp [isWordChar]
    exact isPart_append hchars (begins_cons rfl) hplain

theorem isPart_param {p : Param Text} (h : IsType p.type) : IsPart p.text := by
  obtain ⟨label, type⟩ := p
  have hlabel (name : Identifier) {type : Text} (h : IsPart type) :
      IsPart ('~' :: (name.text ++ ':' :: ' ' :: type)) :=
    @isPart_append ['~'] _ (by simp) (begins_cons rfl) (isPart_named name h)
  cases label with
  | positional => exact h.toIsPart
  | required name => exact hlabel name h.toIsPart
  | optional name =>
    have hmark : Finishes Solid ['=', '?'] := finishes_concat ['='] rfl
    exact hlabel name ⟨h.begins.append _, hmark.append type,
      h.undivided.append (undivided_optional (by decide) (by decide)) (by simp)⟩

end ForeignBindings.TypeText
