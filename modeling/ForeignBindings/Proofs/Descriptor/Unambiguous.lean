import ForeignBindings.Proofs.Descriptor.Rendering
import ForeignBindings.Proofs.Text.Unique

/-! Rendered types are unambiguous: a rendered type is read back whatever stands after it.  The
first characters of a type tell its form, the form tells its parts, and the parts are read back one
after the other. -/

namespace ForeignBindings

open Text

namespace Descriptor

def primitiveNames : List Text :=
  ["number".toList, "string".toList, "boolean".toList, "void".toList, "bigint".toList]

def wrapperNames : List Text :=
  [arrayName, optionName, nullableName, nullName, promiseName, dictName]

/-- Primitive types and wrappers have known names, a wrapper has one argument, and a tuple has two
elements or more. -/
inductive WellFormed : Descriptor → Prop
  | primitive {name : Text} (h : name ∈ primitiveNames) : WellFormed (.primitive name)
  | function {params : List Descriptor} {result : Descriptor} (hparams : ∀ p ∈ params, WellFormed p)
      (hresult : WellFormed result) : WellFormed (.function params result)
  | tuple {elements : List Descriptor} (hlength : 2 ≤ elements.length)
      (h : ∀ e ∈ elements, WellFormed e) : WellFormed (.tuple elements)
  | record {fields : List (Text × Descriptor)} (h : ∀ f ∈ fields, WellFormed f.2) :
      WellFormed (.record fields)
  | wrapper {name : Text} {arg : Descriptor} (hname : name ∈ wrapperNames) (harg : WellFormed arg) :
      WellFormed (.wrapper name [arg])
  | unknown (reason : Text) : WellFormed (.unknown reason)

mutual

/-- The descriptor without the reasons for what is unknown. -/
def withoutReasons : Descriptor → Descriptor
  | .primitive name => .primitive name
  | .function params result => .function (allWithoutReasons params) result.withoutReasons
  | .tuple elements => .tuple (allWithoutReasons elements)
  | .record fields => .record (fieldsWithoutReasons fields)
  | .wrapper name args => .wrapper name (allWithoutReasons args)
  | .unknown _ => .unknown []

def allWithoutReasons : List Descriptor → List Descriptor
  | [] => []
  | d :: rest => d.withoutReasons :: allWithoutReasons rest

def fieldsWithoutReasons : List (Text × Descriptor) → List (Text × Descriptor)
  | [] => []
  | (name, d) :: rest => (name, d.withoutReasons) :: fieldsWithoutReasons rest

end

theorem allWithoutReasons_eq (ds : List Descriptor) :
    allWithoutReasons ds = ds.map withoutReasons := by
  induction ds with
  | nil => rfl
  | cons d ds ih => rw [allWithoutReasons, ih, List.map_cons]

theorem fieldsWithoutReasons_eq (fields : List (Text × Descriptor)) :
    fieldsWithoutReasons fields = fields.map fun f => (f.1, f.2.withoutReasons) := by
  induction fields with
  | nil => rfl
  | cons f fields ih => rw [fieldsWithoutReasons, ih, List.map_cons]

end Descriptor

namespace Typescript

open Descriptor

/-! ### Names -/

/-- A name that stands unquoted: it starts as an identifier does, and all its characters are of an
identifier, but for a line feed that may stand at the end. -/
theorem isIdentifier_cases {name : Text} (h : isIdentifier name = true) :
    name.Begins (isIdentifierStart · = true) ∧
      ∀ c ∈ name, isIdentifierChar c = true ∨ c = '\n' := by
  have hbody : ∃ body, (name = body ∨ name = body ++ ['\n']) ∧
      body.head?.any isIdentifierStart = true ∧ body.all isIdentifierChar = true := by
    rw [isIdentifier] at h
    split at h
    · rename_i hlast
      obtain ⟨body, rfl⟩ := List.getLast?_eq_some_iff.mp hlast
      rw [List.dropLast_concat, Bool.and_eq_true] at h
      exact ⟨body, .inr rfl, h⟩
    · rw [Bool.and_eq_true] at h
      exact ⟨name, .inl rfl, h⟩
  obtain ⟨body, hname, hstart, hall⟩ := hbody
  have hbegins : body.Begins (isIdentifierStart · = true) := by
    cases body with
    | nil => simp at hstart
    | cons c body => exact begins_cons (by simpa using hstart)
  rw [List.all_eq_true] at hall
  rcases hname with rfl | rfl
  · exact ⟨hbegins, fun c hc => .inl (hall c hc)⟩
  · refine ⟨hbegins.append _, fun c hc => ?_⟩
    rcases List.mem_append.mp hc with hc | hc
    · exact .inl (hall c hc)
    · exact .inr (List.mem_singleton.mp hc)

theorem not_mem_of_isIdentifier {name : Text} {c : Char} (h : isIdentifier name = true)
    (hc : isIdentifierChar c = false) (hne : c ≠ '\n') : c ∉ name := by
  intro hmem
  rcases (isIdentifier_cases h).2 c hmem with hchar | hnewline
  · rw [hc] at hchar
    cases hchar
  · exact hne hnewline

/-- The key of a property is an identifier or begins with a quote. -/
theorem begins_propertyKey (name : Text) :
    (propertyKey name).Begins fun c => c = '\x22' ∨ isIdentifierStart c = true := by
  rw [propertyKey]
  split
  · rename_i h
    exact (isIdentifier_cases h).1.mono fun c hc => .inr hc
  · exact begins_cons (.inl rfl)

theorem propertyKey_unique {name name' s t : Text}
    (h : propertyKey name ++ ':' :: s = propertyKey name' ++ ':' :: t) : name = name' ∧ s = t := by
  have hquoted {name text s t : Text} (hname : isIdentifier name = true) :
      name ++ s ≠ Json.quote text ++ t := by
    obtain ⟨c, rest, rfl, hc⟩ := (isIdentifier_cases hname).1.cons_eq
    intro heq
    rw [(List.cons.inj heq).1] at hc
    exact absurd hc (by decide)
  unfold propertyKey at h
  split at h
  · rename_i hname
    split at h
    · rename_i hname'
      exact cut_unique (not_mem_of_isIdentifier hname (by decide) (by decide))
        (not_mem_of_isIdentifier hname' (by decide) (by decide)) h
    · exact absurd h (hquoted hname)
  · split at h
    · rename_i hname'
      exact absurd h.symm (hquoted hname')
    · obtain ⟨rfl, hrest⟩ := quote_unique h
      exact ⟨rfl, (List.cons.inj hrest).2⟩

/-! ### Forms -/

/-- What stands before and after the argument of a wrapper, and whether the two make a union. -/
structure Wrapping where
  opening : Text
  closing : Text
  isUnion : Bool

def wrapping (name : Text) : Wrapping :=
  if name = arrayName then ⟨"Array<".toList, ['>'], false⟩
  else if name = promiseName then ⟨"Promise<".toList, ['>'], false⟩
  else if name = dictName then ⟨"\x7b [key: string]: ".toList, " \x7d".toList, false⟩
  else if name = optionName then ⟨['('], " | undefined)".toList, true⟩
  else if name = nullableName then ⟨['('], " | null | undefined)".toList, true⟩
  else ⟨['('], " | null)".toList, true⟩

/-- The argument of a wrapper: a function in a union type stands in parentheses. -/
def operand (isUnion : Bool) (d : Descriptor) : Text :=
  if isUnion && d.isFunction then '(' :: (render d ++ [')']) else render d

theorem render_wrapper {name : Text} (h : name ∈ wrapperNames) (arg : Descriptor) :
    render (.wrapper name [arg]) =
      (wrapping name).opening ++ operand (wrapping name).isUnion arg ++
        (wrapping name).closing := by
  rw [render, operand]
  simp only [wrapperNames, List.mem_cons, List.not_mem_nil, or_false] at h
  rcases h with rfl | rfl | rfl | rfl | rfl | rfl
  all_goals cases arg.isFunction <;> rfl

theorem operand_function {isUnion : Bool} {d : Descriptor}
    (h : (isUnion && d.isFunction) = true) (s : Text) :
    operand isUnion d ++ s = '(' :: (render d ++ ')' :: s) := by
  rw [operand, if_pos h]
  simp

theorem operand_other {isUnion : Bool} {d : Descriptor} (h : ¬(isUnion && d.isFunction) = true) :
    operand isUnion d = render d :=
  if_neg h

/-- What the first characters of a type tell. -/
inductive Form
  | word
  | function
  | tuple
  | record (isEmpty : Bool)
  | wrapper (opening : Text)

def form : Descriptor → Form
  | .primitive _ | .unknown _ => .word
  | .function _ _ => .function
  | .tuple _ => .tuple
  | .record fields => .record fields.isEmpty
  | .wrapper name _ => .wrapper (wrapping name).opening

/-- The form that a text begins with. -/
def formOf : Text → Form
  | '(' :: c :: _ => if c = ')' ∨ c = 'a' then .function else .wrapper ['(']
  | '\x5b' :: _ => .tuple
  | '\x7b' :: ' ' :: c :: _ =>
    if c = '\x5b' then .wrapper "\x7b [key: string]: ".toList else .record false
  | '\x7b' :: _ => .record true
  | 'A' :: _ => .wrapper "Array<".toList
  | 'P' :: _ => .wrapper "Promise<".toList
  | _ => .word

theorem form_eq_function_iff {d : Descriptor} : form d = .function ↔ d.isFunction = true := by
  cases d <;> simp [form, isFunction]

/-- The characters that a type can begin with. -/
def typeStarts : Text := "nsbvu(\x5b\x7bAP".toList

theorem begins_render {d : Descriptor} (h : d.WellFormed) : (render d).Begins (· ∈ typeStarts) := by
  cases h with
  | @primitive name h =>
    rw [render]
    simp only [primitiveNames, List.mem_cons, List.not_mem_nil, or_false] at h
    rcases h with rfl | rfl | rfl | rfl | rfl
    all_goals exact begins_cons (by decide)
  | function =>
    rw [render]
    exact begins_cons (by decide)
  | tuple =>
    rw [render]
    exact begins_cons (by decide)
  | record =>
    rw [render]
    split
    · exact begins_cons (by decide)
    · exact begins_cons (by decide)
  | @wrapper name arg hname harg =>
    rw [render_wrapper hname]
    simp only [wrapperNames, List.mem_cons, List.not_mem_nil, or_false] at hname
    rcases hname with rfl | rfl | rfl | rfl | rfl | rfl
    all_goals exact begins_cons (by decide)
  | unknown =>
    rw [render]
    exact begins_cons (by decide)

theorem begins_operand (isUnion : Bool) {d : Descriptor} (h : d.WellFormed) :
    (operand isUnion d).Begins (· ∈ typeStarts) := by
  rw [operand]
  split
  · exact begins_cons (by decide)
  · exact begins_render h

/-- A parameter with its number. -/
def paramText (p : Descriptor × Nat) : Text :=
  "arg".toList ++ ofNat p.2 ++ ": ".toList ++ render p.1

theorem numberParams_eq (index : Nat) (params : List Descriptor) :
    numberParams index (params.map render) = (params.zipIdx index).map paramText := by
  induction params generalizing index with
  | nil => rfl
  | cons p params ih => rw [List.map_cons, numberParams, ih, List.zipIdx_cons, List.map_cons]; rfl

theorem render_function (params : List Descriptor) (result : Descriptor) (s : Text) :
    render (.function params result) ++ s =
      '(' :: (join ", ".toList ((params.zipIdx 0).map paramText) ++
        ')' :: (" => ".toList ++ (render result ++ s))) := by
  rw [render, renderAll_eq, numberParams_eq]
  simp

theorem render_tuple (elements : List Descriptor) (s : Text) :
    render (.tuple elements) ++ s =
      '\x5b' :: (join ", ".toList (elements.map render) ++ '\x5d' :: s) := by
  rw [render, renderAll_eq]
  simp

def fieldText (f : Text × Descriptor) : Text := propertyKey f.1 ++ ": ".toList ++ render f.2

theorem render_record (f : Text × Descriptor) (fields : List (Text × Descriptor)) (s : Text) :
    render (.record (f :: fields)) ++ s =
      '\x7b' :: ' ' :: (join "; ".toList ((f :: fields).map fieldText) ++ ' ' :: '\x7d' :: s) := by
  have hparts : renderFields (f :: fields) = fieldText f :: fields.map fieldText :=
    renderFields_eq (f :: fields)
  rw [render, hparts, List.map_cons]
  simp

theorem begins_fieldText (f : Text × Descriptor) :
    (fieldText f).Begins fun c => c = '\x22' ∨ isIdentifierStart c = true := by
  rw [fieldText, List.append_assoc]
  exact (begins_propertyKey f.1).append _

/-- The first characters of a type tell its form, whatever stands after it. -/
theorem formOf_render {d : Descriptor} (h : d.WellFormed) (s : Text) :
    formOf (render d ++ s) = form d := by
  cases h with
  | @primitive name h =>
    rw [render]
    simp only [primitiveNames, List.mem_cons, List.not_mem_nil, or_false] at h
    rcases h with rfl | rfl | rfl | rfl | rfl
    all_goals rfl
  | @function params result =>
    rw [render_function]
    cases params with
    | nil => rfl
    | cons p params =>
      rw [List.zipIdx_cons, List.map_cons, join_cons]
      rfl
  | tuple =>
    rw [render_tuple]
    rfl
  | @record fields =>
    cases fields with
    | nil => rfl
    | cons f fields =>
      obtain ⟨c, rest, hc, hstart⟩ := ((begins_fieldText f).join (fields.map fieldText)).cons_eq
      rw [render_record, List.map_cons, hc]
      apply if_neg
      rintro rfl
      exact absurd hstart (by decide)
  | @wrapper name arg hname harg =>
    obtain ⟨c, rest, hc, hstart⟩ := (begins_operand (wrapping name).isUnion harg).cons_eq
    have hne : ¬(c = ')' ∨ c = 'a') := by
      rintro (rfl | rfl) <;> exact absurd hstart (by decide)
    rw [render_wrapper hname, hc]
    simp only [wrapperNames, List.mem_cons, List.not_mem_nil, or_false] at hname
    rcases hname with rfl | rfl | rfl | rfl | rfl | rfl
    · rfl
    · exact if_neg hne
    · exact if_neg hne
    · exact if_neg hne
    · rfl
    · rfl
  | unknown => rfl

/-! ### Reading types back -/

theorem formOf_parenthesized {d : Descriptor} (h : d.WellFormed) (s : Text) :
    formOf ('(' :: (render d ++ s)) = .wrapper ['('] := by
  obtain ⟨c, rest, hc, hstart⟩ := (begins_render h).cons_eq
  rw [hc]
  apply if_neg
  rintro (rfl | rfl) <;> exact absurd hstart (by decide)

/-- The operand of a union type does not look like a function. -/
theorem formOf_operand_ne {d : Descriptor} (h : d.WellFormed) (s : Text) :
    formOf (operand true d ++ s) ≠ .function := by
  rw [operand, Bool.true_and]
  split
  · rw [List.cons_append, List.append_assoc, formOf_parenthesized h]
    simp
  · rename_i hfunction
    rw [formOf_render h, ne_eq, form_eq_function_iff]
    exact hfunction

/-- No type is a function in parentheses. -/
theorem parenthesized_ne {f d : Descriptor} (hf : f.WellFormed) (hfunction : f.isFunction = true)
    (hd : d.WellFormed) (s t : Text) : '(' :: (render f ++ s) ≠ render d ++ t := by
  intro heq
  have hform := congrArg formOf heq
  rw [formOf_parenthesized hf, formOf_render hd] at hform
  cases hd with
  | @wrapper name arg hname harg =>
    have hopening : (wrapping name).opening = ['('] := (Form.wrapper.inj hform).symm
    have hunion : ∀ name ∈ wrapperNames, (wrapping name).opening = ['('] →
        (wrapping name).isUnion = true := by decide
    rw [render_wrapper hname, hopening, hunion name hname hopening, List.singleton_append,
      List.cons_append, List.cons_append, List.append_assoc] at heq
    have hinside := congrArg formOf (List.cons.inj heq).2
    rw [formOf_render hf, form_eq_function_iff.mpr hfunction] at hinside
    exact formOf_operand_ne harg _ hinside.symm
  | primitive | function | tuple | record | unknown => cases hform

theorem form_eq_of_render_eq {d e : Descriptor} (hd : d.WellFormed) (he : e.WellFormed) {s t : Text}
    (h : render d ++ s = render e ++ t) : form d = form e := by
  rw [← formOf_render hd s, h, formOf_render he t]

/-- A type is read back, up to reasons, whatever stands after it. -/
def ReadBack (d : Descriptor) : Prop :=
  ∀ e s t, e.WellFormed → render d ++ s = render e ++ t →
    d.withoutReasons = e.withoutReasons ∧ s = t

theorem ReadBack.operand {d e : Descriptor} (h : ReadBack d) (hd : d.WellFormed)
    (he : e.WellFormed) {isUnion : Bool} {s t : Text}
    (heq : operand isUnion d ++ s = operand isUnion e ++ t) :
    d.withoutReasons = e.withoutReasons ∧ s = t := by
  by_cases hfd : (isUnion && d.isFunction) = true
  · rw [operand_function hfd] at heq
    by_cases hfe : (isUnion && e.isFunction) = true
    · rw [operand_function hfe] at heq
      obtain ⟨hreasons, hrest⟩ := h e _ _ he (List.cons.inj heq).2
      exact ⟨hreasons, (List.cons.inj hrest).2⟩
    · rw [operand_other hfe] at heq
      exact absurd heq (parenthesized_ne hd (Bool.and_eq_true_iff.mp hfd).2 he _ _)
  · rw [operand_other hfd] at heq
    by_cases hfe : (isUnion && e.isFunction) = true
    · rw [operand_function hfe] at heq
      exact absurd heq.symm (parenthesized_ne he (Bool.and_eq_true_iff.mp hfe).2 hd _ _)
    · rw [operand_other hfe] at heq
      exact h e s t he heq

theorem wrapper_unique {name name' : Text} {arg arg' : Descriptor} {s t : Text}
    (hname : name ∈ wrapperNames) (hname' : name' ∈ wrapperNames) (harg : arg.WellFormed)
    (harg' : arg'.WellFormed) (ih : ReadBack arg)
    (hopening : (wrapping name).opening = (wrapping name').opening)
    (h : render (.wrapper name [arg]) ++ s = render (.wrapper name' [arg']) ++ t) :
    name = name' ∧ arg.withoutReasons = arg'.withoutReasons ∧ s = t := by
  have hunion : ∀ v ∈ wrapperNames, ∀ w ∈ wrapperNames,
      (wrapping v).opening = (wrapping w).opening →
        (wrapping v).isUnion = (wrapping w).isUnion ∧
          ((wrapping v).closing <+: (wrapping w).closing → v = w) := by decide
  obtain ⟨hkind, hclosing⟩ := hunion name hname name' hname' hopening
  rw [render_wrapper hname, render_wrapper hname', hopening, hkind] at h
  simp only [List.append_assoc] at h
  obtain ⟨hreasons, hrest⟩ := ih.operand harg harg' (List.append_cancel_left h)
  have heq : name = name' := by
    rcases List.prefix_or_prefix_of_prefix ⟨s, hrest⟩ (List.prefix_append _ t) with hle | hle
    · exact hclosing hle
    · exact ((hunion name' hname' name hname hopening.symm).2 hle).symm
  rw [heq] at hrest
  exact ⟨heq, hreasons, List.append_cancel_left hrest⟩

theorem paramText_unique {p q : Descriptor × Nat} (hp : ReadBack p.1) (hq : q.1.WellFormed)
    {s t : Text} (h : paramText p ++ s = paramText q ++ t) :
    p.1.withoutReasons = q.1.withoutReasons ∧ s = t := by
  have hnumbers : ofNat p.2 ++ ':' :: (' ' :: (render p.1 ++ s)) =
      ofNat q.2 ++ ':' :: (' ' :: (render q.1 ++ t)) := by
    simpa [paramText] using h
  have hrest := (cut_unique (not_mem_ofNat (by decide) _) (not_mem_ofNat (by decide) _) hnumbers).2
  exact hp q.1 s t hq (List.cons.inj hrest).2

theorem fieldText_unique {f g : Text × Descriptor} (hf : ReadBack f.2) (hg : g.2.WellFormed)
    {s t : Text} (h : fieldText f ++ s = fieldText g ++ t) :
    (f.1, f.2.withoutReasons) = (g.1, g.2.withoutReasons) ∧ s = t := by
  have hkeys : propertyKey f.1 ++ ':' :: (' ' :: (render f.2 ++ s)) =
      propertyKey g.1 ++ ':' :: (' ' :: (render g.2 ++ t)) := by
    simpa [fieldText] using h
  obtain ⟨hname, hrest⟩ := propertyKey_unique hkeys
  obtain ⟨hreasons, hst⟩ := hf g.2 s t hg (List.cons.inj hrest).2
  rw [hname, hreasons]
  exact ⟨rfl, hst⟩

section Parts

variable {s t : Text}

theorem params_unique {params params' : List Descriptor} (ih : ∀ p ∈ params, ReadBack p)
    (hparams' : ∀ p ∈ params', p.WellFormed)
    (h : join ", ".toList ((params.zipIdx 0).map paramText) ++ ')' :: s =
      join ", ".toList ((params'.zipIdx 0).map paramText) ++ ')' :: t) :
    params.map withoutReasons = params'.map withoutReasons ∧ s = t := by
  have hbegins (p : Descriptor × Nat) : (paramText p).Begins (· ≠ ')') := begins_cons (by decide)
  have hform : ∀ p ∈ params.zipIdx 0, ∀ q ∈ params'.zipIdx 0, ∀ s t,
      paramText p ++ s = paramText q ++ t →
        p.1.withoutReasons = q.1.withoutReasons ∧ s = t := by
    intro p hp q hq s t h
    exact paramText_unique (ih p.1 (List.fst_mem_of_mem_zipIdx hp))
      (hparams' q.1 (List.fst_mem_of_mem_zipIdx hq)) h
  have hmap (ds : List Descriptor) :
      (ds.zipIdx 0).map (fun p => p.1.withoutReasons) = ds.map withoutReasons := by
    conv_rhs => rw [← List.zipIdx_map_fst 0 ds]
    rw [List.map_map]
    rfl
  have hvalues := join_unique (begins_cons (by decide)) hform (fun p _ => hbegins p)
    (fun q _ => hbegins q) h
  rwa [hmap, hmap] at hvalues

theorem elements_unique {elements elements' : List Descriptor} (ih : ∀ e ∈ elements, ReadBack e)
    (helements : ∀ e ∈ elements, e.WellFormed) (helements' : ∀ e ∈ elements', e.WellFormed)
    (h : join ", ".toList (elements.map render) ++ '\x5d' :: s =
      join ", ".toList (elements'.map render) ++ '\x5d' :: t) :
    elements.map withoutReasons = elements'.map withoutReasons ∧ s = t := by
  have hbegins {d : Descriptor} (hd : d.WellFormed) : (render d).Begins (· ≠ '\x5d') := by
    apply (begins_render hd).mono
    rintro c hc rfl
    exact absurd hc (by decide)
  exact join_unique (begins_cons (by decide))
    (fun e he e' he' s t => ih e he e' s t (helements' e' he'))
    (fun e he => hbegins (helements e he)) (fun e he => hbegins (helements' e he)) h

theorem fields_unique {fields fields' : List (Text × Descriptor)}
    (ih : ∀ f ∈ fields, ReadBack f.2) (hfields' : ∀ f ∈ fields', f.2.WellFormed)
    (h : join "; ".toList (fields.map fieldText) ++ ' ' :: s =
      join "; ".toList (fields'.map fieldText) ++ ' ' :: t) :
    fields.map (fun f => (f.1, f.2.withoutReasons)) =
      fields'.map (fun f => (f.1, f.2.withoutReasons)) ∧ s = t := by
  have hbegins (f : Text × Descriptor) : (fieldText f).Begins (· ≠ ' ') := by
    apply (begins_fieldText f).mono
    rintro c hc rfl
    exact absurd hc (by decide)
  exact join_unique (begins_cons (by decide))
    (fun f hf g hg s t => fieldText_unique (ih f hf) (hfields' g hg))
    (fun f _ => hbegins f) (fun f _ => hbegins f) h

end Parts

def typeWords : List Text := unknownType :: primitiveNames

theorem typeWords_unique : ∀ v ∈ typeWords, ∀ w ∈ typeWords, v <+: w → v = w := by decide

theorem readBack_word {d : Descriptor} (hd : d.WellFormed) (hform : form d = .word) :
    ReadBack d := by
  have hword : ∀ d, d.WellFormed → form d = .word → render d ∈ typeWords ∧
      d.withoutReasons =
        if render d = unknownType then .unknown [] else .primitive (render d) := by
    intro d hd hform
    cases hd with
    | @primitive name h =>
      have hne : ∀ name ∈ primitiveNames, name ≠ unknownType := by decide
      exact ⟨List.mem_cons_of_mem _ h, (if_neg (hne name h)).symm⟩
    | unknown reason => exact ⟨List.mem_cons_self, rfl⟩
    | function | tuple | record | wrapper => cases hform
  intro e s t he h
  have hforms : form e = .word := (form_eq_of_render_eq hd he h).symm.trans hform
  obtain ⟨hmem, hreasons⟩ := hword d hd hform
  obtain ⟨hmem', hreasons'⟩ := hword e he hforms
  obtain ⟨heq, hst⟩ := word_unique typeWords_unique hmem hmem' h
  rw [hreasons, hreasons', heq]
  exact ⟨rfl, hst⟩

/-- Every well-formed type is read back. -/
theorem readBack_of_wellFormed {d : Descriptor} (h : d.WellFormed) : ReadBack d := by
  -- The other type has the same form, and so the same constructor; then part follows part.
  induction h with
  | primitive h => exact readBack_word (.primitive h) rfl
  | unknown reason => exact readBack_word (.unknown reason) rfl
  | @function params result hparams hresult ihparams ihresult =>
    intro e s t he h
    have hform : .function = form e := form_eq_of_render_eq (.function hparams hresult) he h
    cases he with
    | @function params' result' hparams' hresult' =>
      rw [render_function, render_function] at h
      obtain ⟨hreasons, hrest⟩ := params_unique ihparams hparams' (List.cons.inj h).2
      obtain ⟨hreasons', hst⟩ := ihresult _ _ _ hresult' (List.append_cancel_left hrest)
      rw [withoutReasons, withoutReasons, allWithoutReasons_eq, allWithoutReasons_eq, hreasons,
        hreasons']
      exact ⟨rfl, hst⟩
    | primitive | tuple | record | wrapper | unknown => cases hform
  | @tuple elements hlength helements ih =>
    intro e s t he h
    have hform : .tuple = form e := form_eq_of_render_eq (.tuple hlength helements) he h
    cases he with
    | @tuple elements' hlength' helements' =>
      rw [render_tuple, render_tuple] at h
      obtain ⟨hreasons, hst⟩ := elements_unique ih helements helements' (List.cons.inj h).2
      rw [withoutReasons, withoutReasons, allWithoutReasons_eq, allWithoutReasons_eq, hreasons]
      exact ⟨rfl, hst⟩
    | primitive | function | record | wrapper | unknown => cases hform
  | @record fields hfields ih =>
    intro e s t he h
    have hform : .record fields.isEmpty = form e := form_eq_of_render_eq (.record hfields) he h
    cases he with
    | @record fields' hfields' =>
      have hempty : fields.isEmpty = fields'.isEmpty := Form.record.inj hform
      cases fields with
      | nil =>
        obtain rfl := List.isEmpty_iff.mp hempty.symm
        exact ⟨rfl, List.append_cancel_left h⟩
      | cons f fields =>
        cases fields' with
        | nil => cases hempty
        | cons f' fields' =>
          rw [render_record, render_record] at h
          obtain ⟨hreasons, hrest⟩ :=
            fields_unique ih hfields' (List.cons.inj (List.cons.inj h).2).2
          rw [withoutReasons, withoutReasons, fieldsWithoutReasons_eq, fieldsWithoutReasons_eq,
            hreasons]
          exact ⟨rfl, (List.cons.inj hrest).2⟩
    | primitive | function | tuple | wrapper | unknown => cases hform
  | @wrapper name arg hname harg ih =>
    intro e s t he h
    have hform : .wrapper (wrapping name).opening = form e :=
      form_eq_of_render_eq (.wrapper hname harg) he h
    cases he with
    | @wrapper name' arg' hname' harg' =>
      obtain ⟨rfl, hreasons, hst⟩ :=
        wrapper_unique hname hname' harg harg' ih (Form.wrapper.inj hform) h
      rw [withoutReasons, withoutReasons, allWithoutReasons_eq, allWithoutReasons_eq,
        List.map_singleton, List.map_singleton, hreasons]
      exact ⟨rfl, hst⟩
    | primitive | function | tuple | record | unknown => cases hform

/-- A type is rendered without regard to the reasons for what is unknown. -/
theorem render_withoutReasons {d : Descriptor} (h : d.WellFormed) :
    render d.withoutReasons = render d := by
  have hfunction (d : Descriptor) : d.withoutReasons.isFunction = d.isFunction := by
    cases d <;> rfl
  have hall {ds : List Descriptor} (hds : ∀ d ∈ ds, render d.withoutReasons = render d) :
      (ds.map withoutReasons).map render = ds.map render := by
    rw [List.map_map]
    exact List.map_congr_left hds
  induction h with
  | primitive | unknown => rfl
  | function hparams hresult ihparams ihresult =>
    rw [withoutReasons, render, render, renderAll_eq, renderAll_eq, allWithoutReasons_eq,
      hall ihparams, ihresult]
  | tuple hlength helements ih =>
    rw [withoutReasons, render, render, renderAll_eq, renderAll_eq, allWithoutReasons_eq, hall ih]
  | @record fields hfields ih =>
    have hfields : renderFields (fieldsWithoutReasons fields) = renderFields fields := by
      rw [renderFields_eq, renderFields_eq, fieldsWithoutReasons_eq, List.map_map]
      exact List.map_congr_left fun f hf => by rw [Function.comp_apply, ih f hf]
    rw [withoutReasons, render, render, hfields]
  | wrapper hname harg ih =>
    rw [withoutReasons, allWithoutReasons_eq, List.map_singleton, render, render, ih, hfunction]

/-- Two well-formed descriptors are rendered as the same type exactly if they differ in nothing but
the reasons for what is unknown. -/
theorem render_eq_iff {d e : Descriptor} (hd : d.WellFormed) (he : e.WellFormed) :
    render d = render e ↔ d.withoutReasons = e.withoutReasons := by
  constructor
  · intro h
    exact (readBack_of_wellFormed hd e [] [] he (by rw [h])).1
  · intro h
    rw [← render_withoutReasons hd, h, render_withoutReasons he]

/-- An optional function that gives a nullable number is told from a function that gives an optional
nullable number. -/
theorem render_optional_function :
    let number : Descriptor := .wrapper nullableName [.primitive "number".toList]
    let d : Descriptor := .wrapper optionName [.function [.unknown ['a']] number]
    let e : Descriptor := .function [.unknown ['b']] (.wrapper optionName [number])
    d.WellFormed ∧ e.WellFormed ∧ render d ≠ render e := by
  intro number d e
  have hnumber : number.WellFormed := .wrapper (by decide) (.primitive (by decide))
  have hd : d.WellFormed :=
    .wrapper (by decide) (.function (List.forall_mem_singleton.mpr (.unknown _)) hnumber)
  have he : e.WellFormed :=
    .function (List.forall_mem_singleton.mpr (.unknown _)) (.wrapper (by decide) hnumber)
  refine ⟨hd, he, ?_⟩
  rw [ne_eq, render_eq_iff hd he]
  simp [d, e, withoutReasons]

end Typescript

end ForeignBindings
