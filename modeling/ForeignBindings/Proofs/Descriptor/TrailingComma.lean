import ForeignBindings.Proofs.Descriptor.Unknown
import ForeignBindings.Proofs.Nesting.Ending

/-! A comma after the last parameter of a function type.  It leaves several parameters as they are,
since the empty part after it is left out.  A single parameter takes it in, and no type is the same
with a comma at its end as without.  The types of the parameters are any texts that can stand as
types, among them those of the grammar. -/

namespace ForeignBindings.TypeText

open Text Depth

variable {describe : Text → Description} {text : Text}

/-! ### The first arrow of a type -/

/-- A type with an arrow at the top level is a function, whatever stands before the arrow. -/
theorem step_of_cutAtTop? {body before after : Text} (ht : text.trim = body)
    (hcut : body.cutAtTop? Piece.arrowText = some (before, after)) :
    step describe text = function describe before after := by
  have hfound : ¬Lacks Piece.arrowText zero body.pieces := by
    rw [← cutAtTop?_eq_none_iff, hcut]
    exact Option.some_ne_none _
  have hunit : body ≠ ['(', ')'] := by
    rintro rfl
    exact hfound (lacks_parenthesized isBalanced_nil (by decide))
  have hparen : parenthesized? body = none := by
    rw [parenthesized?]
    apply if_neg
    rintro ⟨henclosed, hbalanced⟩
    obtain ⟨inside, rfl⟩ := exists_of_enclosedBy (by decide) henclosed
    rw [inner_enclosed] at hbalanced
    exact hfound (lacks_parenthesized hbalanced (by decide))
  simp only [step, ht, if_neg hunit, stripGrouping_of_none hparen, hcut]

/-! ### Types that end in a comma -/

theorem primary_concat_comma (front : Text) :
    primary describe (front ++ [',']) = name (front ++ [',']) := by
  have hfinishes {c : Char} (hc : ',' ≠ c) : (front ++ [',']).Finishes (· ≠ c) :=
    finishes_concat front hc
  have htuple : tupleParts? (front ++ [',']) = none := by
    rw [tupleParts?, enclosedBy_eq_false_of_finishes (hfinishes (by decide))]
    simp
  have hrecord : recordBody? (front ++ [',']) = none := by
    rw [recordBody?, enclosedBy_eq_false_of_finishes (hfinishes (by decide))]
    simp
  have happlication : application? (front ++ [',']) = none := by
    rw [application?]
    cases (front ++ [',']).findTop? ['<'] with
    | none => rfl
    | some angle => exact if_neg fun h => absurd h.2.1 (by simp)
  simp only [primary, htuple, hrecord, happlication]
  exact if_neg (by simp)

/-- Without an arrow, a type that ends in a comma is unknown for what it says. -/
theorem step_concat_comma {front : Text} (ht : text.trim = front ++ [','])
    (hcut : cutAtTop? (front ++ [',']) Piece.arrowText = none) :
    ∃ doubt : Doubt, step describe text = .unknown doubt ∧ doubt.subject = front ++ [','] := by
  have hunit : front ++ [','] ≠ ['(', ')'] := by
    intro heq
    have hlast := congrArg List.getLast? heq
    rw [List.getLast?_concat] at hlast
    cases hlast
  have hparen : parenthesized? (front ++ [',']) = none := by
    rw [parenthesized?, enclosedBy_eq_false_of_finishes (finishes_concat front (by decide))]
    simp
  rw [step_eq_primary ht hunit (stripGrouping_of_none hparen) (cutAtTop?_eq_none_iff.mp hcut),
    primary_concat_comma]
  exact name_eq_unknown (lookup_primitives_eq_none (List.mem_append_right _ List.mem_cons_self)
    (by decide : isWordChar ',' = false))

theorem descriptor_concat_comma_ne_wrapper (n : Nat) (text wrapperName : Text)
    (args : List Descriptor) :
    (describeWithin n (text ++ [','])).descriptor ≠ .wrapper wrapperName args := by
  have htrim := @trim_concat ',' rfl text
  cases n with
  | zero => exact Descriptor.noConfusion
  | succ n =>
    cases hcut : cutAtTop? (text.trimStart ++ [',']) Piece.arrowText with
    | none =>
      obtain ⟨doubt, hstep, -⟩ := @step_concat_comma (describeWithin n) _ _ htrim hcut
      rw [describeWithin, hstep]
      exact Descriptor.noConfusion
    | some parts =>
      rw [describeWithin, step_of_cutAtTop? htrim hcut]
      exact Descriptor.noConfusion

/-! ### Types with and without a comma at their end -/

/-- A type that ends in a comma is another one than without the comma: the comma is in what it is
unknown for, or in the result of a function. -/
theorem descriptor_concat_comma_ne (n : Nat) (hcomplete : Complete text) (hend : SolidEnd text) :
    (describeWithin n (text ++ [','])).descriptor ≠ (describeWithin n text).descriptor := by
  induction n generalizing text with
  | zero =>
    have hlong : text.trim.length < (text ++ [',']).trim.length := by
      rw [hend.trim_eq, @trim_concat ',' rfl]
      simp
    exact (@describeWithin_ne_unknown text (.tooDeep (text ++ [',']).trim) hlong 0).symm
  | succ n ih =>
    have htrim := @trim_concat ',' rfl text
    have hbody := hcomplete.trimStart
    have hpieces := hbody.pieces_concat_comma
    cases hcut : text.trimStart.cutAtTop? Piece.arrowText with
    | none =>
      have hnone : cutAtTop? (text.trimStart ++ [',']) Piece.arrowText = none := by
        rw [cutAtTop?_eq_none_iff, hpieces, lacks_append]
        refine ⟨cutAtTop?_eq_none_iff.mp hcut, lacks_of_forall_ne ?_⟩
        simp [Piece.separator?, Piece.arrowText]
      obtain ⟨doubt, hstep, hsubject⟩ := @step_concat_comma (describeWithin n) _ _ htrim hnone
      have hlong : text.trim.length < doubt.subject.length := by
        rw [hsubject, hend.trim_eq]
        simp
      rw [describeWithin, hstep]
      exact (describeWithin_ne_unknown hlong (n + 1)).symm
    | some parts =>
      -- Both types are cut at the same arrow, and the comma goes into the result.
      obtain ⟨before, after⟩ := parts
      obtain ⟨front, rest, hread, hlacks, htop, rfl, rfl⟩ := exists_of_cutAtTop?_arrow hcut
      have hcomma : pieces (text.trimStart ++ [',']) =
          front ++ .arrow :: (rest ++ [.plain ',']) := by
        rw [hpieces, hread, List.append_assoc, List.cons_append]
      have hcutComma := cutAtTop?_of_pieces hcomma hlacks htop rfl
      rw [Piece.textOf_append] at hcutComma
      have hafter : Complete (Piece.textOf rest) := by
        rw [← List.singleton_append, ← List.append_assoc] at hread
        exact hbody.of_pieces hread
      have hafterEnd : SolidEnd (Piece.textOf rest) := by
        have hbodyEnd := hend.trimStart
        rw [← textOf_pieces text.trimStart, hread, Piece.textOf_append, Piece.textOf_cons,
          ← List.append_assoc] at hbodyEnd
        exact hbodyEnd.of_append
      rw [describeWithin, describeWithin, step_of_cutAtTop? htrim hcutComma,
        step_of_cutAtTop? hend.trim_eq hcut]
      intro heq
      exact ih hafter hafterEnd (Descriptor.function.inj heq).2

/-! ### The last parameter -/

/-- The comma is in the type of a label, and takes the mark of an optional parameter in. -/
theorem labelled?_concat_comma (name : Identifier) (type : Text) :
    labelled? ('~' :: (name.text ++ ':' :: ' ' :: type) ++ [',']) =
      some (' ' :: type ++ [','], false) := by
  have hsuffix : ['=', '?'].isSuffixOf (' ' :: type ++ [',']) = false := by
    rw [Bool.eq_false_iff]
    intro hmark
    obtain ⟨front, hfront⟩ := List.isSuffixOf_iff_suffix.mp hmark
    have hlast := congrArg List.getLast? hfront
    rw [List.getLast?_append, List.getLast?_concat] at hlast
    cases hlast
  have hlabel := labelled?_label name (' ' :: type ++ [','])
  rw [hsuffix] at hlabel
  rw [List.cons_append, List.append_assoc]
  exact hlabel

/-- A parameter with a comma behind it is another one than without the comma. -/
theorem descriptor_param_concat_comma_ne (n : Nat) {p : Param Text} (htype : IsType p.type) :
    (param (describeWithin n) (p.text ++ [','])).descriptor ≠
      (param (describeWithin n) p.text).descriptor := by
  have hpart := isPart_param htype
  have htrim : (p.text ++ [',']).trim = p.text ++ [','] :=
    trim_eq_self (hpart.begins.append _) (finishes_concat _ rfl)
  have hstandalone := htype.undivided.standalone
  rw [param_text htype, param, htrim]
  obtain ⟨label, type⟩ := p
  cases label with
  | positional =>
    have hnone : labelled? (type ++ [',']) = none :=
      labelled?_eq_none ((htype.opens.mono fun c hc => hc.1).append _)
    simp only [Param.text, hnone, describedParam]
    exact descriptor_concat_comma_ne n hstandalone.complete (solidEnd_of_finishes htype.finishes)
  | required name =>
    have hcomplete := (hstandalone.cons ⟨rfl, by decide⟩ : Standalone (' ' :: type)).complete
    simp only [Param.text, labelled?_concat_comma, describedParam]
    exact descriptor_concat_comma_ne n hcomplete (solidEnd_of_finishes (htype.finishes.cons ' '))
  | optional name =>
    simp only [Param.text, labelled?_concat_comma, describedParam]
    exact descriptor_concat_comma_ne_wrapper n _ _ _

/-! ### The comma behind the parameters -/

/-- A function type from the text in its parentheses and the text of its result. -/
def functionText (inside result : Text) : Text :=
  enclosed '(' ')' inside ++ " => ".toList ++ result

theorem trim_functionText (inside result : Text) :
    (functionText inside result).trim =
      enclosed '(' ')' inside ++ ' ' :: '=' :: '>' :: trimEnd (' ' :: result) := by
  have hsplit : functionText inside result =
      enclosed '(' ')' inside ++ [' ', '=', '>'] ++ ' ' :: result := by
    simp [functionText]
  have hfirst : (enclosed '(' ')' inside ++ [' ', '=', '>']).Begins Solid := begins_cons (by decide)
  have hlast : (enclosed '(' ')' inside ++ [' ', '=', '>']).Finishes Solid :=
    Finishes.append (@finishes_concat Solid '>' [' ', '='] rfl) _
  rw [hsplit, trim_append hfirst hlast, List.append_assoc]
  rfl

theorem step_functionText {inside : Text} (hs : Standalone inside)
    (hb : inside.isBalanced = true) (result : Text) :
    step describe (functionText inside result) =
      function describe (enclosed '(' ')' inside ++ [' ']) (trimEnd (' ' :: result)) :=
  step_parenthesized_arrow hs hb (trim_functionText inside result)

section Parts

variable {parts : List Text} (hparts : ∀ part ∈ parts, IsPart part)
include hparts

theorem paramTexts_concat_comma (hdots : ∀ part ∈ parts, part.Begins (· ≠ '.'))
    (hne : parts ≠ []) :
    paramTexts (enclosed '(' ')' (join commaBlank parts ++ [',']) ++ [' ']) =
      if parts.length ≤ 1 then [join commaBlank parts ++ [',']] else parts := by
  have hcomplete := (standalone_join hparts).complete
  have hbalanced := hcomplete.isBalanced_concat_comma (isBalanced_join hparts)
  have hsplit : (join commaBlank parts ++ [',']).splitTop [','] = parts := by
    rw [hcomplete.splitTop_concat_comma (isBalanced_join hparts), map_trim_cutTop_join hparts hne]
  obtain ⟨first, rest, rfl⟩ := List.exists_cons_of_ne_nil hne
  have hbegins {p : Char → Prop} (h : first.Begins p) :
      (join commaBlank (first :: rest) ++ [',']).Begins p := (h.join rest).append _
  have htrim : (join commaBlank (first :: rest) ++ [',']).trim =
      join commaBlank (first :: rest) ++ [','] :=
    trim_eq_self (hbegins (hparts first (by simp)).begins) (finishes_concat _ rfl)
  have hdot := hbegins (hdots first (by simp))
  rw [← htrim] at hdot
  rw [paramTexts_parenthesized hbalanced hdot, htrim, comma, hsplit]

end Parts

/-- A comma behind the last parameter of a function type changes nothing if there are several
parameters.  A single parameter takes the comma in, and then the type is another one. -/
theorem describe_trailing_comma_iff {params : List (Param Text)} (hne : params ≠ [])
    (htypes : ∀ p ∈ params, IsType p.type) (result : Text) :
    TypeText.describe (functionText (join commaBlank (params.map Param.text) ++ [',']) result) =
        TypeText.describe (functionText (join commaBlank (params.map Param.text)) result) ↔
      2 ≤ params.length := by
  have hparts := isPart_of_mem_params htypes
  have hdots := begins_of_mem_params htypes
  have htexts : params.map Param.text ≠ [] := by simpa using hne
  have hstandalone := standalone_join hparts
  have hbalanced := isBalanced_join hparts
  have hcomma := hstandalone.complete.isBalanced_concat_comma hbalanced
  rw [describe_eq_step, describe_eq_step, step_functionText hstandalone.concat_comma hcomma,
    step_functionText hstandalone hbalanced, function, function,
    paramTexts_enclosed hparts hdots, paramTexts_concat_comma hparts hdots htexts]
  rcases params with _ | ⟨p, _ | ⟨q, more⟩⟩
  · exact absurd rfl hne
  · have hp := descriptor_param_concat_comma_ne (maxHeight - 1) (htypes p List.mem_cons_self)
    simp [Description.descriptors, hp]
  · simp

/-- Parameters with both kinds of labels, and a result with an open string. -/
theorem describe_trailing_comma_labelled :
    let params : List (Param Text) := [⟨.required ⟨"of".toList, by decide⟩, "int".toList⟩,
      ⟨.optional ⟨"key".toList, by decide⟩, "(string) => array<Node.t>".toList⟩]
    params ≠ [] ∧ (∀ p ∈ params, IsType p.type) ∧
      TypeText.describe (functionText (join commaBlank (params.map Param.text) ++ [','])
          "\"=>".toList) =
        TypeText.describe (functionText (join commaBlank (params.map Param.text))
          "\"=>".toList) := by
  intro params
  have hint : IsType "int".toList := isType_path ⟨⟨"int".toList, by decide⟩, []⟩
  have hstring : IsType "string".toList := isType_path ⟨⟨"string".toList, by decide⟩, []⟩
  have hnode : IsType "Node.t".toList :=
    isType_path ⟨⟨"Node".toList, by decide⟩, [⟨['t'], by decide⟩]⟩
  have harray : IsType "array<Node.t>".toList :=
    @isType_applied ⟨⟨"array".toList, by decide⟩, []⟩ ["Node.t".toList]
      (by simpa using hnode.toIsPart)
  have hfunction : IsType "(string) => array<Node.t>".toList :=
    @isType_function ["string".toList] _ (by simpa using hstring.toIsPart) harray
  have htypes : ∀ p ∈ params, IsType p.type := by
    intro p hp
    rcases List.mem_cons.mp hp with rfl | hp
    · exact hint
    · exact List.mem_singleton.mp hp ▸ hfunction
  have hne : params ≠ [] := List.cons_ne_nil _ _
  exact ⟨hne, htypes, (describe_trailing_comma_iff hne htypes _).mpr (by decide)⟩

/-- The comma behind a single parameter is part of its type. -/
theorem describe_single_trailing_comma_ne :
    TypeText.describe "(int,) => string".toList ≠ TypeText.describe "(int) => string".toList := by
  intro heq
  have hwarnings : (TypeText.describe "(int,) => string".toList).warnings =
      ["unsupported type int, treated as unknown".toList] := by decide +kernel
  have hnone : (TypeText.describe "(int) => string".toList).warnings = [] := by decide +kernel
  rw [heq, hnone] at hwarnings
  cases hwarnings

end ForeignBindings.TypeText
