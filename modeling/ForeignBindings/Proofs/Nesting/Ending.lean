import ForeignBindings.Proofs.Nesting.Reading

/-! How the end of a text decides what is read after it.  Before a neutral text, which completes no
literal and no arrow, a text is read as it is on its own, unless a string in it is still open: then
the string takes in what follows.  Either way a balanced text in parentheses has no other separator
at the top level, and blanks around a text do not change how it is split. -/

namespace ForeignBindings.Text

open Depth

/-- Nothing in the text completes a literal or an arrow that begins before it. -/
structure Neutral (text : Text) : Prop where
  quoteless : Quoteless text
  begins : text.head? ≠ some '>'

/-- Before every neutral text, the text is read as it is on its own. -/
def Complete (text : Text) : Prop :=
  ∀ rest, Neutral rest → pieces (text ++ rest) = text.pieces ++ rest.pieces

/-- The text ends in a string that is open and takes in every neutral text after it. -/
def EndsOpen (text : Text) : Prop :=
  ∃ ps opened, ∀ rest, Neutral rest → pieces (text ++ rest) = ps ++ [.literal (opened ++ rest)]

theorem neutral_nil : Neutral [] := ⟨fun c hc => absurd hc List.not_mem_nil, by simp⟩

theorem Neutral.cons {text : Text} (h : Quoteless text) {c : Char} (hc : Inert c) (hne : c ≠ '>') :
    Neutral (c :: text) :=
  ⟨List.forall_mem_cons.mpr ⟨hc.1, h⟩, by simpa using hne⟩

theorem EndsOpen.pieces_eq {text : Text} (h : EndsOpen text) :
    ∃ ps opened, text.pieces = ps ++ [.literal opened] ∧
      ∀ rest, Neutral rest → pieces (text ++ rest) = ps ++ [.literal (opened ++ rest)] := by
  obtain ⟨ps, opened, hread⟩ := h
  have hnil := hread [] neutral_nil
  rw [List.append_nil, List.append_nil] at hnil
  exact ⟨ps, opened, hnil, hread⟩

/-- What stands before a complete text or an open string does not change how it ends. -/
theorem complete_or_endsOpen_of_append {front text : Text} {ps : List Piece}
    (hread : ∀ rest, Neutral rest → pieces (front ++ text ++ rest) = ps ++ pieces (text ++ rest))
    (h : Complete text ∨ EndsOpen text) : Complete (front ++ text) ∨ EndsOpen (front ++ text) := by
  have hself := hread [] neutral_nil
  rw [List.append_nil, List.append_nil] at hself
  rcases h with hcomplete | ⟨qs, opened, hopen⟩
  · left
    intro rest hrest
    rw [hread rest hrest, hcomplete rest hrest, hself, List.append_assoc]
  · right
    refine ⟨ps ++ qs, opened, fun rest hrest => ?_⟩
    rw [hread rest hrest, hopen rest hrest, List.append_assoc]

theorem complete_or_endsOpen (text : Text) : Complete text ∨ EndsOpen text := by
  induction text using pieces.induct with
  | case1 => exact .inl fun rest _ => by simp
  | case2 c rest n htail ih =>
    -- A string that is still open takes in all that follows; any other literal is left as it is.
    by_cases hopen : StaysOpen c rest
    · right
      refine ⟨[], c :: rest, fun more hmore => ?_⟩
      rw [List.cons_append, pieces_literal (literalTail?_staysOpen hmore.quoteless hopen),
        List.take_length, List.drop_length, pieces_nil]
      rfl
    · have hle := literalTail?_le htail
      have hsplit : c :: rest.take n ++ rest.drop n = c :: rest := by simp
      rw [← hsplit]
      apply @complete_or_endsOpen_of_append _ _ [.literal (c :: rest.take n)] _ ih
      intro more hmore
      have hmoreTail := (literalTail?_append hmore.quoteless hopen).trans htail
      rw [hsplit, List.cons_append, pieces_literal hmoreTail, List.take_append_of_le_length hle,
        List.drop_append_of_le_length hle]
      rfl
  | case3 c rest htail harrow ih =>
    obtain ⟨rfl, hhead⟩ := harrow
    obtain ⟨after, rfl⟩ := List.head?_eq_some_iff.mp hhead
    apply @complete_or_endsOpen_of_append ['=', '>'] _ [.arrow] _ ih
    intro more _
    exact pieces_arrow _
  | case4 c rest htail harrow ih =>
    have hclosed : ¬StaysOpen c rest := by
      intro hopen
      have htail' := literalTail?_staysOpen neutral_nil.quoteless hopen
      rw [List.append_nil, htail] at htail'
      cases htail'
    apply @complete_or_endsOpen_of_append [c] _ [.plain c] _ ih
    intro more hmore
    apply pieces_plain ((literalTail?_append hmore.quoteless hclosed).trans htail)
    rintro ⟨hc, hhead⟩
    cases rest with
    | nil => exact hmore.begins hhead
    | cons d rest => exact harrow ⟨hc, hhead⟩

theorem Standalone.complete {text : Text} (h : Standalone text) : Complete text := by
  intro rest hrest
  apply h rest
  intro hhead
  exact hrest.quoteless.not_mem rfl (List.mem_of_head? hhead)

/-- The end of a complete text is complete. -/
theorem Complete.of_pieces {text : Text} (h : Complete text) {ps qs : List Piece}
    (hpieces : text.pieces = ps ++ qs) : Complete (Piece.textOf qs) := by
  intro rest hrest
  have happend : pieces (text ++ rest) = ps ++ (qs ++ rest.pieces) := by
    rw [h rest hrest, hpieces, List.append_assoc]
  have hsuffix := pieces_textOf_of_append happend
  rw [Piece.textOf_append, textOf_pieces] at hsuffix
  rw [hsuffix, pieces_textOf_of_append hpieces]

/-! ### Parentheses around a text -/

theorem neutral_closing {rest : Text} (h : Quoteless rest) : Neutral (')' :: rest) :=
  .cons h ⟨rfl, by decide⟩ (by decide)

theorem pieces_parenthesis (text : Text) : pieces ('(' :: text) = .plain '(' :: text.pieces :=
  pieces_inert ⟨rfl, by decide⟩ text

theorem Complete.pieces_enclosed_append {text : Text} (h : Complete text) {rest : Text}
    (hrest : Quoteless rest) :
    pieces (Text.enclosed '(' ')' text ++ rest) =
      .plain '(' :: (text.pieces ++ .plain ')' :: rest.pieces) := by
  rw [Text.enclosed, List.cons_append, List.append_assoc, List.singleton_append,
    pieces_parenthesis, h _ (neutral_closing hrest), pieces_inert ⟨rfl, by decide⟩]

theorem Complete.pieces_enclosed {text : Text} (h : Complete text) :
    pieces (Text.enclosed '(' ')' text) = .plain '(' :: (text.pieces ++ [.plain ')']) := by
  have happend := h.pieces_enclosed_append neutral_nil.quoteless
  rwa [List.append_nil, pieces_nil] at happend

theorem Complete.enclosed {text : Text} (h : Complete text) :
    Complete (enclosed '(' ')' text) := by
  intro rest hrest
  rw [h.pieces_enclosed_append hrest.quoteless, h.pieces_enclosed]
  simp

theorem Complete.isBalanced_enclosed {text : Text} (h : Complete text)
    (hb : text.isBalanced = true) : isBalanced (Text.enclosed '(' ')' text) = true := by
  rw [isBalanced, h.pieces_enclosed, Pair.round.balancedFrom_enclosed hb]
  rfl

theorem EndsOpen.enclosed {text : Text} (h : EndsOpen text) : EndsOpen (enclosed '(' ')' text) := by
  obtain ⟨ps, opened, hread⟩ := h
  refine ⟨.plain '(' :: ps, opened ++ [')'], fun rest hrest => ?_⟩
  rw [Text.enclosed, List.cons_append, List.append_assoc, List.singleton_append, pieces_parenthesis,
    hread _ (neutral_closing hrest.quoteless)]
  simp

/-- An open string takes in the closing parenthesis. -/
theorem EndsOpen.pieces_enclosed {text : Text} (h : EndsOpen text) :
    ∃ ps opened, text.pieces = ps ++ [.literal opened] ∧
      pieces (Text.enclosed '(' ')' text) = .plain '(' :: (ps ++ [.literal (opened ++ [')'])]) := by
  obtain ⟨ps, opened, hpieces, hread⟩ := h.pieces_eq
  refine ⟨ps, opened, hpieces, ?_⟩
  rw [Text.enclosed, pieces_parenthesis, hread _ (neutral_closing neutral_nil.quoteless)]

theorem EndsOpen.through_enclosed {text : Text} (h : EndsOpen text) (d : Depth) :
    d.through (pieces (Text.enclosed '(' ')' text)) =
      (Piece.feed d (.plain '(')).through text.pieces := by
  obtain ⟨ps, opened, hpieces, henclosed⟩ := h.pieces_enclosed
  rw [henclosed, hpieces, through_cons, through_append, through_append]
  rfl

theorem EndsOpen.lacks_enclosed_iff {text separator : Text} (h : EndsOpen text) (d : Depth) :
    Lacks separator d (pieces (Text.enclosed '(' ')' text)) ↔
      ¬(d.atTop = true ∧ ['('] = separator) ∧
        Lacks separator (Piece.feed d (.plain '(')) text.pieces := by
  obtain ⟨ps, opened, hpieces, henclosed⟩ := h.pieces_enclosed
  rw [henclosed, hpieces]
  simp [Lacks, lacks_append, Piece.separator?]

/-- What stands in parentheses has no separator at the top level. -/
theorem lacks_parenthesized {text separator : Text} (h : text.isBalanced = true)
    (hne : separator ≠ ['(']) : Lacks separator zero (pieces (enclosed '(' ')' text)) := by
  rcases complete_or_endsOpen text with hcomplete | hopen
  · rw [hcomplete.pieces_enclosed]
    exact Pair.round.lacks_enclosed h hne trivial
  · rw [hopen.lacks_enclosed_iff, Pair.round.feed_opening]
    refine ⟨fun hsep => hne hsep.2.symm, ?_⟩
    have hinside : Lacks separator (zero.add Pair.round.depth) text.pieces :=
      lacks_inside h zero_underflowed Pair.round.depth_underflowed Pair.round.depth_atTop
    rwa [zero_add] at hinside

theorem length_splitTop_le_of_lacks {text separator : Text}
    (h : Lacks separator zero text.pieces) : (splitTop text separator).length ≤ 1 := by
  rw [splitTop, cutTop, cutFrom_of_lacks h]
  simp only [List.map_singleton]
  split <;> simp

/-! ### A comma behind a text -/

theorem Complete.pieces_concat_comma {text : Text} (h : Complete text) :
    pieces (text ++ [',']) = text.pieces ++ [.plain ','] := by
  have hcomma : Neutral [','] := .cons neutral_nil.quoteless ⟨rfl, by decide⟩ (by decide)
  rw [h _ hcomma, pieces_inert ⟨rfl, by decide⟩, pieces_nil]

theorem Standalone.concat_comma {text : Text} (h : Standalone text) :
    Standalone (text ++ [',']) :=
  h.append (standalone_nil.cons ⟨rfl, by decide⟩) (by simp)

theorem Complete.isBalanced_concat_comma {text : Text} (h : Complete text)
    (hb : text.isBalanced = true) : isBalanced (text ++ [',']) = true := by
  rw [isBalanced, h.pieces_concat_comma]
  exact balanced_append hb rfl

/-- The empty part after a last comma is left out, whatever stands before it. -/
theorem Complete.splitTop_concat_comma {text : Text} (h : Complete text)
    (hb : text.isBalanced = true) :
    (text ++ [',']).splitTop [','] = (text.cutTop [',']).map trim := by
  obtain ⟨front, last, hcut⟩ := exists_cutFrom_append [','] zero text.pieces
  have hself : text.cutTop [','] = front ++ [last] := by
    have happ := hcut []
    rw [List.append_nil] at happ
    simpa [cutTop, cutFrom] using happ
  have hcomma : (text ++ [',']).cutTop [','] = front ++ [last, []] := by
    rw [cutTop, h.pieces_concat_comma, hcut, through_of_balanced hb, cutFrom_separator rfl rfl]
    simp [cutFrom]
  have hlast : (front ++ [last, []]).map trim = (front ++ [last]).map trim ++ [[]] := by
    simp [trim, trimStart, trimEnd]
  simp only [splitTop, hcomma, hself, hlast, List.getLast?_concat, if_true, List.dropLast_concat]

/-! ### Blanks around a text -/

section Blanks

variable {blanks : Text} (h : ∀ c ∈ blanks, isBlank c = true)
include h

theorem flat_of_blanks : ∀ c ∈ blanks, Inert c ∧ bracket? c = none ∧ [','] ≠ [c] := by
  intro c hc
  refine ⟨inert_of_isBlank (h c hc), bracket?_eq_none (h c hc) (by decide), ?_⟩
  exact fun heq => ne_of_isBlank (h c hc) rfl (List.cons.inj heq).1.symm

theorem neutral_blanks : Neutral blanks where
  quoteless := fun c hc => (flat_of_blanks h c hc).1.1
  begins := by
    intro hhead
    have hbracket := (flat_of_blanks h '>' (List.mem_of_head? hhead)).2.1
    cases hbracket

theorem pieces_blanks : pieces blanks = blanks.map .plain := by
  have happend := pieces_inert_append (fun c hc => (flat_of_blanks h c hc).1) []
  rwa [List.append_nil, pieces_nil, List.append_nil] at happend

theorem ne_comma_of_mem_pieces : ∀ p ∈ pieces blanks, p.separator? ≠ some [','] := by
  rw [pieces_blanks h]
  intro p hp
  obtain ⟨c, hc, rfl⟩ := List.mem_map.mp hp
  rw [Piece.separator?, ne_eq, Option.some.injEq]
  exact fun heq => (flat_of_blanks h c hc).2.2 heq.symm

/-- The pieces of a text with blanks after it differ in no comma: the blanks are pieces of their
own, or belong to an open string. -/
theorem exists_pieces_append_blanks (text : Text) :
    ∃ ps qs rs, text.pieces = ps ++ qs ∧ pieces (text ++ blanks) = ps ++ rs ∧
      Piece.textOf rs = Piece.textOf qs ++ blanks ∧
      (∀ p ∈ qs, p.separator? ≠ some [',']) ∧ (∀ p ∈ rs, p.separator? ≠ some [',']) := by
  rcases complete_or_endsOpen text with hcomplete | hopen
  · refine ⟨text.pieces, [], pieces blanks, (List.append_nil _).symm,
      hcomplete blanks (neutral_blanks h), textOf_pieces blanks,
      fun p hp => absurd hp List.not_mem_nil, ne_comma_of_mem_pieces h⟩
  · obtain ⟨ps, opened, hpieces, hread⟩ := hopen.pieces_eq
    refine ⟨ps, [.literal opened], [.literal (opened ++ blanks)], hpieces,
      hread blanks (neutral_blanks h), ?_, ?_, ?_⟩
    · simp [Piece.textOf, Piece.text]
    · simp [Piece.separator?]
    · simp [Piece.separator?]

theorem splitTop_append_blanks (text : Text) :
    splitTop (text ++ blanks) [','] = splitTop text [','] := by
  obtain ⟨ps, qs, rs, hqs, hrs, htext, hlacksQ, hlacksR⟩ := exists_pieces_append_blanks h text
  obtain ⟨front, last, hcut⟩ := exists_cutFrom_append [','] zero ps
  have hparts : (cutTop (text ++ blanks) [',']).map trim = (cutTop text [',']).map trim := by
    rw [cutTop, cutTop, hqs, hrs, hcut, hcut, cutFrom_of_lacks (lacks_of_forall_ne hlacksQ),
      cutFrom_of_lacks (lacks_of_forall_ne hlacksR), htext]
    simp [← List.append_assoc, trim_append_blanks h]
  rw [splitTop, splitTop, hparts]

theorem splitTop_blanks_append (text : Text) :
    splitTop (blanks ++ text) [','] = splitTop text [','] := by
  have hread : pieces (blanks ++ text) = pieces blanks ++ text.pieces := by
    rw [pieces_inert_append (fun c hc => (flat_of_blanks h c hc).1), pieces_blanks h]
  have hthrough : zero.through (pieces blanks) = zero :=
    (undivided_flat (flat_of_blanks h)).through zero
  have hparts : (cutTop (blanks ++ text) [',']).map trim = (cutTop text [',']).map trim := by
    rw [cutTop, cutTop, hread,
      cutFrom_append_of_lacks (lacks_of_forall_ne (ne_comma_of_mem_pieces h)), hthrough,
      textOf_pieces]
    cases cutFrom [','] zero text.pieces with
    | nil => rfl
    | cons part more => simp [trim_blanks_append h]
  rw [splitTop, splitTop, hparts]

end Blanks

theorem Complete.trimStart {text : Text} (h : Complete text) : Complete text.trimStart := by
  have hblank : ∀ c ∈ text.takeWhile isBlank, Inert c := fun c hc =>
    inert_of_isBlank (List.all_eq_true.mp List.all_takeWhile c hc)
  have hpieces : text.pieces = (text.takeWhile isBlank).map .plain ++ pieces text.trimStart := by
    rw [← pieces_inert_append hblank, Text.trimStart, List.takeWhile_append_dropWhile]
  have hcomplete := h.of_pieces hpieces
  rwa [textOf_pieces] at hcomplete

/-- Blanks at the ends of a text do not change its parts. -/
theorem splitTop_trim (text : Text) : splitTop text.trim [','] = splitTop text [','] := by
  obtain ⟨before, after, htext, hbefore, hafter⟩ := exists_eq_trim text
  calc splitTop text.trim [',']
    _ = splitTop (before ++ text.trim ++ after) [','] := by
      rw [splitTop_append_blanks hafter, splitTop_blanks_append hbefore]
    _ = splitTop text [','] := by rw [← htext]

end ForeignBindings.Text
