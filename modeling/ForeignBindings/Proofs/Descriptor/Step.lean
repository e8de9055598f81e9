import ForeignBindings.Proofs.Descriptor.Part

/-! One step of the description of a type, for each form in which a type is written.  The parts of a
form are given by their texts; the step cuts the form into exactly these parts, whatever describes
them. -/

namespace ForeignBindings.TypeText

open Text Depth

/-! ### Parentheses -/

theorem parenthesized?_enclosed {inside : Text} (h : inside.isBalanced = true) :
    parenthesized? (enclosed '(' ')' inside) = some inside.trim := by
  rw [parenthesized?, enclosedBy_enclosed, inner_enclosed, if_pos ⟨rfl, h⟩]

theorem parenthesized?_eq_none {text : Text} (h : text.Begins (· ≠ '(')) :
    parenthesized? text = none := by
  rw [parenthesized?, enclosedBy_eq_false h]
  simp

theorem tupleParts?_eq_none {text : Text} (h : text.Begins (· ≠ '(')) :
    tupleParts? text = none := by
  rw [tupleParts?, enclosedBy_eq_false h]
  simp

theorem recordBody?_eq_none {text : Text} (h : text.Begins (· ≠ '\x7b')) :
    recordBody? text = none := by
  rw [recordBody?, enclosedBy_eq_false h]
  simp

theorem stripGrouping_of_none {text : Text} (h : parenthesized? text = none) :
    stripGrouping text = text := by
  rw [stripGrouping]
  split
  · rfl
  · rename_i inside hin
    rw [h] at hin
    exact absurd hin (by simp)

theorem stripGrouping_of_parts {text inside : Text} (h : parenthesized? text = some inside)
    (hparts : 1 < (inside.splitTop comma).length) : stripGrouping text = text := by
  rw [stripGrouping]
  split
  · rfl
  · rename_i inside' hin
    rw [h, Option.some.injEq] at hin
    subst hin
    exact if_pos hparts

theorem stripGrouping_of_parenthesized {text inside : Text} (h : parenthesized? text = some inside)
    (hparts : ¬1 < (inside.splitTop comma).length) :
    stripGrouping text = stripGrouping inside := by
  rw [stripGrouping]
  split
  · rename_i hnone
    rw [h] at hnone
    cases hnone
  · rename_i inside' hin
    rw [h, Option.some.injEq] at hin
    subst hin
    exact if_neg hparts

theorem enclosed_ne_unit {text : Text} (h : text ≠ []) : enclosed '(' ')' text ≠ ['(', ')'] := by
  intro heq
  have hinner := congrArg (inner 1) heq
  rw [inner_enclosed] at hinner
  exact h hinner

/-! ### A step by the kind of the text -/

theorem describe_eq_step (text : Text) :
    TypeText.describe text = step (describeWithin (maxHeight - 1)) text := rfl

variable {describe : Text → Description} {text body : Text}

/-- A text without an arrow at the top level and without redundant parentheses is no function. -/
theorem step_eq_primary (ht : text.trim = body) (hunit : body ≠ ['(', ')'])
    (hstrip : stripGrouping body = body) (harrow : Lacks Piece.arrowText zero body.pieces) :
    step describe text = primary describe body := by
  simp only [step, ht, if_neg hunit, hstrip, cutAtTop?_eq_none_iff.mpr harrow]

theorem ne_unit_of_begins (h : body.Begins (· ≠ '(')) : body ≠ ['(', ')'] := by
  rintro rfl
  obtain ⟨c, hc, hne⟩ := h
  exact hne (by simpa using hc.symm)

theorem step_of_begins (ht : text.trim = body) (hround : body.Begins (· ≠ '('))
    (harrow : Lacks Piece.arrowText zero body.pieces) :
    step describe text = primary describe body :=
  step_eq_primary ht (ne_unit_of_begins hround)
    (stripGrouping_of_none (parenthesized?_eq_none hround)) harrow

/-- A text that begins with no bracket and has no arrow and no angle bracket is a name. -/
theorem step_name (ht : text.trim = body) (hround : body.Begins (· ≠ '('))
    (hcurly : body.Begins (· ≠ '\x7b')) (harrow : Lacks Piece.arrowText zero body.pieces)
    (hangle : Lacks ['<'] zero body.pieces) : step describe text = name body := by
  have happlication : application? body = none := by
    rw [application?, findTop?_eq_none_iff.mpr hangle]
  rw [step_of_begins ht hround harrow]
  simp only [primary, if_neg hround.ne_nil, tupleParts?_eq_none hround,
    recordBody?_eq_none hcurly, happlication]

/-! ### Tuples -/

theorem step_tuple {first second : Text} {rest : List Text}
    (hparts : ∀ part ∈ first :: second :: rest, IsPart part)
    (ht : text.trim = enclosed '(' ')' (join commaBlank (first :: second :: rest))) :
    step describe text =
      ⟨.tuple (Description.descriptors ((first :: second :: rest).map describe)),
        Description.allWarnings ((first :: second :: rest).map describe)⟩ := by
  have hsplit := splitTop_join hparts
  have hbalanced := isBalanced_join hparts
  have hparen := parenthesized?_enclosed hbalanced
  rw [trim_join hparts] at hparen
  have hunit : enclosed '(' ')' (join commaBlank (first :: second :: rest)) ≠ ['(', ')'] :=
    enclosed_ne_unit ((hparts first (by simp)).begins.join _).ne_nil
  have hlength : 1 < ((join commaBlank (first :: second :: rest)).splitTop comma).length := by
    rw [comma, hsplit]
    simp
  have htuple : tupleParts? (enclosed '(' ')' (join commaBlank (first :: second :: rest))) =
      some (first :: second :: rest) := by
    rw [tupleParts?, enclosedBy_enclosed, inner_enclosed, if_pos ⟨rfl, hbalanced, hlength⟩, comma,
      hsplit]
  have harrow := undivided_enclosed (standalone_join hparts) hbalanced Pair.round
    (show Piece.arrowText ≠ ['('] by decide)
  rw [step_eq_primary ht hunit (stripGrouping_of_parts hparen hlength) harrow.lacks, primary,
    if_neg (by simp [enclosed]), htuple]

/-! ### Generic types -/

theorem application?_applied (callee : NamePath) {args : List Text}
    (hargs : ∀ arg ∈ args, IsPart arg) :
    application? (applied callee args) = some (callee.text, args) := by
  have hstandalone := standalone_join hargs
  have hbalanced := isBalanced_join hargs
  have hangle : Undivided ['<'] callee.text :=
    callee.undivided fun _ hc => singleton_ne_of_path hc rfl (by decide)
  have hpieces : (applied callee args).pieces = callee.text.pieces ++
      .plain '<' :: ((join commaBlank args).pieces ++ [.plain '>']) := by
    have henclosed := hstandalone.pieces_enclosed Pair.angle []
    rw [List.append_nil, pieces_nil] at henclosed
    rw [applied, hangle.standalone _ (by simp [enclosed]), henclosed]
  have hfind : (applied callee args).findTop? ['<'] = some callee.text.length :=
    findTop?_append hpieces hangle rfl
  have hpos : 0 < callee.text.length := List.length_pos_iff.mpr callee.begins_word.ne_nil
  have hlast : (applied callee args).getLast? = some '>' := by
    rw [applied, enclosed, ← List.cons_append, ← List.append_assoc, List.getLast?_concat]
  have hcallee : callee.text.trim = callee.text :=
    trim_eq_self callee.begins_solid callee.finishes_solid
  rw [application?, hfind]
  simp only [applied, List.drop_left, List.take_left]
  rw [if_pos ⟨hpos, hlast, isBalanced_enclosed hstandalone hbalanced Pair.angle⟩,
    inner_enclosed, comma, splitTop_join hargs, hcallee]

theorem step_applied (callee : NamePath) {args : List Text} (hargs : ∀ arg ∈ args, IsPart arg)
    (ht : text.trim = applied callee args) :
    step describe text = application describe callee.text args := by
  have hround : (applied callee args).Begins (· ≠ '(') := begins_applied_ne callee args rfl
  have hcurly : (applied callee args).Begins (· ≠ '\x7b') := begins_applied_ne callee args rfl
  have harrow : Undivided Piece.arrowText (applied callee args) :=
    undivided_applied callee hargs (by decide) fun c _ => by simp [Piece.arrowText]
  rw [step_of_begins ht hround harrow.lacks]
  simp only [primary, if_neg hround.ne_nil, tupleParts?_eq_none hround,
    recordBody?_eq_none hcurly, application?_applied callee hargs]

/-! ### Records -/

theorem dropMutable_name (name : Identifier) (rest : Text) :
    dropMutable (name.text ++ ':' :: rest) = name.text ++ ':' :: rest := by
  rw [dropMutable]
  apply if_neg
  rintro ⟨hmark, hblank⟩
  obtain ⟨after, hafter⟩ := List.isPrefixOf_iff_prefix.mp hmark
  rw [← hafter, List.drop_left] at hblank
  cases after with
  | nil => simp at hblank
  | cons b after =>
    have hword : isWordChar b = false := by
      rw [Bool.eq_false_iff]
      intro hb
      exact Bool.false_ne_true ((solid_of_isWordChar hb).symm.trans (by simpa using hblank))
    have hsame := congrArg (List.dropWhile isWordChar) hafter
    have hmarkWord : "mutable".toList.all isWordChar = true := by decide
    rw [name.dropWhile_append (fun _ h => h),
      List.dropWhile_append_of_pos (List.all_eq_true.mp hmarkWord),
      List.dropWhile_cons_of_neg (by simp [hword]), List.dropWhile_cons_of_neg (by decide),
      List.cons.injEq] at hsame
    rw [hsame.1] at hblank
    simp [isBlank] at hblank

theorem dropMutable_text (f : Field Text) :
    dropMutable f.text = f.name.text ++ ':' :: ' ' :: f.type := by
  obtain ⟨isMutable, name, type⟩ := f
  cases isMutable with
  | false => exact dropMutable_name name _
  | true =>
    have hbegins : (name.text ++ ':' :: ' ' :: type).Begins Solid :=
      name.begins_solid.append _
    have hmark : Field.text ⟨true, name, type⟩ =
        "mutable".toList ++ ' ' :: (name.text ++ ':' :: ' ' :: type) := rfl
    have hblank : (' ' :: (name.text ++ ':' :: ' ' :: type)).head?.any isBlank = true := rfl
    rw [dropMutable, hmark, List.drop_left]
    rw [if_pos ⟨List.isPrefixOf_iff_prefix.mpr ⟨_, rfl⟩, hblank⟩, List.dropWhile_cons_of_pos rfl]
    exact trimStart_eq_self hbegins

/-- A record from the names of its fields and the descriptions of their types. -/
def describedRecord (fields : List (Text × Description)) : Description :=
  ⟨.record (fields.map fun f => (f.1, f.2.descriptor)), fields.flatMap fun f => f.2.warnings⟩

theorem field_text (f : Field Text) :
    field describe f.text =
      ([(f.name.text, (describe (' ' :: f.type)).descriptor)],
        (describe (' ' :: f.type)).warnings) := by
  have hcolon : ∀ c ∈ f.name.text, (c != ':') = true := fun c hc => by
    simpa using @ne_of_isWordChar _ ':' (f.name.isWordChar_of_mem hc) rfl
  have hname : f.name.text.trim = f.name.text :=
    trim_eq_self f.name.begins_solid f.name.finishes_solid
  have hunquote : unquote f.name.text = f.name.text := by
    have hquote (q : Char) (hq : isWordChar q = false) : f.name.text.enclosedBy q q = false :=
      enclosedBy_eq_false (f.name.begins_word.mono fun c hc => ne_of_isWordChar hc hq)
    rw [unquote, hquote '\x22' rfl, hquote '\x27' rfl]
    exact if_neg (by simp)
  have htype : (f.name.text ++ ':' :: ' ' :: f.type).dropWhile (· != ':') =
      ':' :: ' ' :: f.type := by
    rw [List.dropWhile_append_of_pos hcolon, List.dropWhile_cons_of_neg (by decide)]
  have hbefore : (f.name.text ++ ':' :: ' ' :: f.type).takeWhile (· != ':') = f.name.text := by
    rw [List.takeWhile_append_of_pos hcolon, List.takeWhile_cons_of_neg (by decide),
      List.append_nil]
  simp only [field, dropMutable_text, htype, hbefore, hname, hunquote]

/-- Parts in braces are the fields of a record. -/
theorem step_braces {parts : List Text} (hparts : ∀ part ∈ parts, IsPart part)
    (ht : text.trim = enclosed '\x7b' '\x7d' (join commaBlank parts)) :
    step describe text =
      ⟨.record ((parts.map (field describe)).flatMap Prod.fst),
        (parts.map (field describe)).flatMap Prod.snd⟩ := by
  have hstandalone := standalone_join hparts
  have hbalanced := isBalanced_join hparts
  have hround : (enclosed '\x7b' '\x7d' (join commaBlank parts)).Begins (· ≠ '(') :=
    begins_cons (by decide)
  have hbody : recordBody? (enclosed '\x7b' '\x7d' (join commaBlank parts)) =
      some (join commaBlank parts) := by
    rw [recordBody?, enclosedBy_enclosed, inner_enclosed, if_pos ⟨rfl, hbalanced⟩]
  have hkept : parts.filter (· ≠ []) = parts :=
    List.filter_eq_self.mpr fun part hpart => by simpa using (hparts part hpart).ne_nil
  have harrow := undivided_enclosed hstandalone hbalanced Pair.curly
    (show Piece.arrowText ≠ ['\x7b'] by decide)
  rw [step_of_begins ht hround harrow.lacks]
  simp only [primary, if_neg hround.ne_nil, tupleParts?_eq_none hround, hbody, record,
    trim_join hparts, comma, splitTop_join hparts, hkept]

theorem step_record {fields : List (Field Text)} (hfields : ∀ f ∈ fields, IsPart f.text)
    (ht : text.trim = enclosed '\x7b' '\x7d' (join commaBlank (fields.map Field.text))) :
    step describe text =
      describedRecord (fields.map fun f => (f.name.text, describe (' ' :: f.type))) := by
  have hparts : ∀ part ∈ fields.map Field.text, IsPart part := by
    intro part hpart
    obtain ⟨f, hf, rfl⟩ := List.mem_map.mp hpart
    exact hfields f hf
  rw [step_braces hparts ht]
  simp only [describedRecord, List.map_map, Function.comp_def, field_text, List.flatMap_map,
    ← List.map_eq_flatMap]

/-! ### Functions -/

theorem cutAtTop?_append_arrow {front : Text} (h : Undivided Piece.arrowText front)
    (after : Text) :
    cutAtTop? (front ++ '=' :: '>' :: after) Piece.arrowText = some (front, after) := by
  have hpieces : pieces (front ++ '=' :: '>' :: after) =
      front.pieces ++ .arrow :: after.pieces := by
    rw [h.standalone _ (by simp), pieces_arrow]
  have htop : (zero.through front.pieces).atTop = true := by rw [h.through, zero_atTop]
  have hcut := cutAtTop?_of_pieces hpieces h.lacks htop rfl
  rwa [textOf_pieces, textOf_pieces] at hcut

/-- Parentheses that close before the end of a text are not around it. -/
theorem parenthesized?_enclosed_append {inside more : Text} (hs : Standalone inside)
    (hb : inside.isBalanced = true) (hmore : more ≠ []) :
    parenthesized? (enclosed '(' ')' inside ++ more) = none := by
  obtain ⟨front, c, rfl⟩ : ∃ front c, more = front ++ [c] :=
    ⟨_, _, (List.dropLast_concat_getLast hmore).symm⟩
  have hshape : enclosed '(' ')' inside ++ (front ++ [c]) =
      '(' :: ((inside ++ ')' :: front) ++ [c]) := by
    simp [enclosed]
  rw [parenthesized?, hshape]
  apply if_neg
  rintro ⟨hends, hbalanced⟩
  have hlast : c = ')' := by
    rw [enclosedBy, ← List.cons_append, List.getLast?_concat] at hends
    simpa using hends
  subst hlast
  rw [show '(' :: ((inside ++ ')' :: front) ++ [')']) =
    enclosed '(' ')' (inside ++ ')' :: front) from rfl, inner_enclosed, isBalanced,
    hs _ (by simp), pieces_inert ⟨rfl, by decide⟩,
    Pair.round.balancedFrom_closing hb] at hbalanced
  exact Bool.false_ne_true hbalanced

theorem trim_enclosed (text : Text) :
    trim (enclosed '(' ')' text) = enclosed '(' ')' text :=
  trim_eq_self (begins_cons (by decide)) (finishes_concat ('(' :: text) (by decide))

theorem trim_enclosed_blank (text : Text) :
    trim (enclosed '(' ')' text ++ [' ']) = enclosed '(' ')' text := by
  have hbegins : (enclosed '(' ')' text).Begins Solid := begins_cons (by decide)
  rw [trim_concat_blank (by decide) hbegins, trim_enclosed]

/-- What stands in the parentheses before an arrow, if it is not marked as uncurried. -/
theorem paramTexts_parenthesized {inside : Text} (hb : inside.isBalanced = true)
    (hdot : inside.trim.Begins (· ≠ '.')) :
    paramTexts (enclosed '(' ')' inside ++ [' ']) =
      if (inside.trim.splitTop comma).length ≤ 1 then [inside.trim]
      else inside.trim.splitTop comma := by
  have hmark : ¬inside.trim.head? = some '.' := by
    obtain ⟨c, hc, hne⟩ := hdot
    rw [hc, Option.some.injEq]
    exact hne
  simp only [paramTexts, trim_enclosed_blank, parenthesized?_enclosed hb, Option.getD_some,
    if_neg hmark, if_neg hdot.ne_nil]

theorem paramTexts_enclosed {parts : List Text} (hparts : ∀ part ∈ parts, IsPart part)
    (hdot : ∀ part ∈ parts, part.Begins (· ≠ '.')) :
    paramTexts (enclosed '(' ')' (join commaBlank parts) ++ [' ']) = parts := by
  have hbalanced := isBalanced_join hparts
  have htrim := trim_join hparts
  cases parts with
  | nil =>
    simp only [paramTexts, trim_enclosed_blank, parenthesized?_enclosed hbalanced]
    rfl
  | cons first rest =>
    have hfirst : (join commaBlank (first :: rest)).Begins (· ≠ '.') :=
      (hdot first (by simp)).join rest
    rw [paramTexts_parenthesized hbalanced (by rwa [htrim]), htrim, comma, splitTop_join hparts]
    cases rest with
    | nil => simp
    | cons next more => simp

/-- Balanced parentheses before the first arrow: what stands in them are the parameters, and what
stands after the arrow is the result. -/
theorem step_parenthesized_arrow {inside after : Text} (hs : Standalone inside)
    (hb : inside.isBalanced = true)
    (ht : text.trim = enclosed '(' ')' inside ++ ' ' :: '=' :: '>' :: after) :
    step describe text = function describe (enclosed '(' ')' inside ++ [' ']) after := by
  have hfront : Undivided Piece.arrowText (enclosed '(' ')' inside ++ [' ']) :=
    (undivided_enclosed hs hb Pair.round (by decide)).append
      (undivided_flat (flat_blank (by decide))) (by simp)
  have hbody : enclosed '(' ')' inside ++ ' ' :: '=' :: '>' :: after =
      enclosed '(' ')' inside ++ [' '] ++ '=' :: '>' :: after := by
    simp
  have hunit : enclosed '(' ')' inside ++ ' ' :: '=' :: '>' :: after ≠ ['(', ')'] := by
    intro heq
    have hlength := congrArg List.length heq
    simp only [enclosed, List.length_cons, List.length_append, List.length_nil] at hlength
    omega
  have hstrip := stripGrouping_of_none (parenthesized?_enclosed_append hs hb
    (List.cons_ne_nil ' ' ('=' :: '>' :: after)))
  simp only [step, ht, if_neg hunit, hstrip]
  rw [hbody, cutAtTop?_append_arrow hfront]

/-- Parts in parentheses, an arrow and a text: what stands between the commas are the parameters. -/
theorem step_arrow {parts : List Text} {result : Text} (hparts : ∀ part ∈ parts, IsPart part)
    (hdot : ∀ part ∈ parts, part.Begins (· ≠ '.'))
    (ht : text.trim = enclosed '(' ')' (join commaBlank parts) ++
      ' ' :: '=' :: '>' :: ' ' :: result) :
    step describe text =
      ⟨.function (Description.descriptors (parts.map (param describe)))
          (describe (' ' :: result)).descriptor,
        Description.allWarnings (parts.map (param describe)) ++
          (describe (' ' :: result)).warnings⟩ := by
  rw [step_parenthesized_arrow (standalone_join hparts) (isBalanced_join hparts) ht]
  simp only [function, paramTexts_enclosed hparts hdot]

def describedParam (describe : Text → Description) (p : Param Text) : Description :=
  match p.label with
  | .positional => describe p.type
  | label => label.described (describe (' ' :: p.type))

theorem labelled?_eq_none (h : body.Begins (· ≠ '~')) : labelled? body = none := by
  obtain ⟨c, rest, rfl, hc⟩ := h.cons_eq
  rw [labelled?]
  simpa using hc

theorem labelled?_label (name : Identifier) (type : Text) :
    labelled? ('~' :: (name.text ++ ':' :: type)) =
      some (if ['=', '?'].isSuffixOf type then (type.take (type.length - 2), true)
        else (type, false)) := by
  have hstart : (name.text ++ ':' :: type).dropWhile isBlank = name.text ++ ':' :: type :=
    trimStart_eq_self (name.begins_solid.append _)
  have hlabel : (name.text ++ ':' :: type).dropWhile
      (fun c => c.isAlphanum || c == '_' || c == '\x27') = ':' :: type := by
    rw [name.dropWhile_append fun c hc => ?_, List.dropWhile_cons_of_neg (by decide)]
    rw [Bool.or_eq_true]
    exact .inl hc
  have hhead : (name.text ++ ':' :: type).head?.any (fun c => c.isAlpha || c == '_') = true := by
    obtain ⟨c, hc, hp⟩ := name.begins.append (':' :: type)
    rw [hc]
    exact hp
  simp only [labelled?, hstart, hlabel, hhead, if_true]
  rw [List.dropWhile_cons_of_neg (by decide)]
  simp only
  split <;> rfl

theorem param_text {p : Param Text} (htype : IsType p.type) :
    param describe p.text = describedParam describe p := by
  rw [param, (isPart_param htype).trim_eq]
  obtain ⟨label, type⟩ := p
  cases label with
  | positional =>
    have hnone := labelled?_eq_none (htype.opens.mono fun c hc => hc.1)
    simp only [Param.text, hnone, describedParam]
  | required name =>
    have hsuffix : ['=', '?'].isSuffixOf (' ' :: type) = false := by
      rw [Bool.eq_false_iff]
      intro hmark
      obtain ⟨front, hfront⟩ := List.isSuffixOf_iff_suffix.mp hmark
      obtain ⟨c, hc, hne⟩ := htype.closes.cons ' '
      rw [← hfront, List.getLast?_append] at hc
      exact hne (by simpa using hc.symm)
    simp only [Param.text, labelled?_label, hsuffix, describedParam]
    rfl
  | optional name =>
    have hsuffix : ['=', '?'].isSuffixOf (' ' :: (type ++ ['=', '?'])) = true :=
      List.isSuffixOf_iff_suffix.mpr ⟨' ' :: type, rfl⟩
    have htake : (' ' :: (type ++ ['=', '?'])).take
        ((' ' :: (type ++ ['=', '?'])).length - 2) = ' ' :: type := by
      rw [← List.cons_append, List.take_left' (by simp)]
    simp only [Param.text, labelled?_label, hsuffix, htake, describedParam]
    rfl

theorem begins_param {p : Param Text} (htype : IsType p.type) : p.text.Begins (· ≠ '.') := by
  obtain ⟨label, type⟩ := p
  cases label with
  | positional => exact htype.opens.mono fun c hc => hc.2
  | required name => exact begins_cons (by decide)
  | optional name => exact begins_cons (by decide)

section Params

variable {params : List (Param Text)} (htypes : ∀ p ∈ params, IsType p.type)
include htypes

theorem isPart_of_mem_params : ∀ part ∈ params.map Param.text, IsPart part := by
  intro part hpart
  obtain ⟨p, hp, rfl⟩ := List.mem_map.mp hpart
  exact isPart_param (htypes p hp)

theorem begins_of_mem_params : ∀ part ∈ params.map Param.text, part.Begins (· ≠ '.') := by
  intro part hpart
  obtain ⟨p, hp, rfl⟩ := List.mem_map.mp hpart
  exact begins_param (htypes p hp)

theorem step_function {result : Text}
    (ht : text.trim = enclosed '(' ')' (join commaBlank (params.map Param.text)) ++
      ' ' :: '=' :: '>' :: ' ' :: result) :
    step describe text =
      ⟨.function (Description.descriptors (params.map (describedParam describe)))
          (describe (' ' :: result)).descriptor,
        Description.allWarnings (params.map (describedParam describe)) ++
          (describe (' ' :: result)).warnings⟩ := by
  have hparams : (params.map Param.text).map (param describe) =
      params.map (describedParam describe) := by
    rw [List.map_map]
    exact List.map_congr_left fun p hp => param_text (htypes p hp)
  rw [step_arrow (isPart_of_mem_params htypes) (begins_of_mem_params htypes) ht, hparams]

end Params

end ForeignBindings.TypeText
