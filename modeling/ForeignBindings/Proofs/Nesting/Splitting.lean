import ForeignBindings.Proofs.Nesting.Ending

/-! Splitting a text at its commas and joining the parts again.  A text that is cut off at a piece
is read as it was up to there, so each part between two commas is read alone as it is in the text:
no comma divides it further, and the parts with the commas between them give the text back.  Joined
texts without literals, balanced and without commas of their own, are split into the same texts. -/

namespace ForeignBindings

open Text Depth

/-! ### Literals of a shorter text -/

/-- A string that ends before some text ends in the same place without it. -/
theorem stringTail_of_append {quote : Char} {text more : Text}
    (h : (stringTail quote (text ++ more)).1 ≤ text.length) :
    (stringTail quote text).1 = (stringTail quote (text ++ more)).1 := by
  fun_induction stringTail quote text with
  | case1 => exact (Nat.le_zero.mp h).symm
  | case2 =>
    cases more with
    | nil => rfl
    | cons c more =>
      simp only [List.cons_append, List.nil_append, stringTail, List.length_singleton] at h
      omega
  | case3 c rest n closed htail ih =>
    rw [htail] at ih
    simp only [List.cons_append, stringTail, List.length_cons] at h ⊢
    exact congrArg (· + 2) (ih (by omega))
  | case4 rest hend hescape =>
    have hquote : quote ≠ '\x5c' := by
      rintro rfl
      cases rest with
      | nil => exact hend rfl rfl
      | cons c rest => exact hescape c rest rfl rfl
    rw [List.cons_append, stringTail_cons hquote, if_pos rfl]
  | case5 c rest hend hescape hc n closed htail ih =>
    have hchar : c ≠ '\x5c' := by
      rintro rfl
      cases rest with
      | nil => exact hend rfl rfl
      | cons d rest => exact hescape d rest rfl rfl
    rw [htail] at ih
    rw [List.cons_append, stringTail_cons hchar, if_neg hc, List.length_cons] at h
    rw [List.cons_append, stringTail_cons hchar, if_neg hc]
    exact congrArg (· + 1) (ih (Nat.le_of_succ_le_succ h))

theorem two_le_of_charTail? {text : Text} {n : Nat} (h : charTail? text = some n) : 2 ≤ n := by
  cases text with
  | nil => cases h
  | cons c rest =>
    by_cases hc : c = '\x5c'
    · subst hc
      rw [charTail?, Option.ite_none_right_eq_some] at h
      have hlength := Option.some.inj h.2
      omega
    · rw [charTail?_single hc, Option.ite_none_right_eq_some] at h
      exact Nat.le_of_eq (Option.some.inj h.2)

/-- Whether a character literal ends within a text is decided by this text alone. -/
theorem charTail?_append_eq_some_iff {text : Text} {n : Nat} (hn : n ≤ text.length)
    (more : Text) : charTail? (text ++ more) = some n ↔ charTail? text = some n := by
  rcases Nat.lt_or_ge n 2 with hshort | htwo
  · exact iff_of_false (fun h => absurd (two_le_of_charTail? h) (by omega))
      fun h => absurd (two_le_of_charTail? h) (by omega)
  rcases text with _ | ⟨c, _ | ⟨d, rest⟩⟩
  · exact absurd hn (by simp only [List.length_nil]; omega)
  · exact absurd hn (by simp only [List.length_singleton]; omega)
  by_cases hc : c = '\x5c'
  · subst hc
    simp only [List.cons_append, List.length_cons] at hn ⊢
    rw [charTail?_escaped, charTail?_escaped, List.dropWhile_append, List.takeWhile_append]
    have hlength := congrArg List.length
      (@List.takeWhile_append_dropWhile _ (fun c => c != '\x27' && c != '\n') rest)
    rw [List.length_append] at hlength
    cases hstop : rest.dropWhile fun c => c != '\x27' && c != '\n' with
    | nil =>
      -- the escape has no end in the text, so with more text its literal goes beyond the text
      rw [hstop, List.length_nil, Nat.add_zero] at hlength
      simp only [List.isEmpty_nil, if_true, if_pos hlength, List.length_append,
        Option.ite_none_right_eq_some, List.head?_nil, Option.some.injEq, reduceCtorEq, false_and,
        iff_false]
      omega
    | cons stop after =>
      rw [hstop, List.length_cons] at hlength
      have hne : (rest.takeWhile fun c => c != '\x27' && c != '\n').length ≠ rest.length := by
        omega
      simp [hne]
  · rw [List.cons_append, List.cons_append, charTail?_single hc, charTail?_single hc]
    rfl

/-- A literal that ends before some text is a literal without it. -/
theorem literalTail?_of_append {c : Char} {text more : Text} {n : Nat} (hn : n ≤ text.length)
    (h : literalTail? c (text ++ more) = some n) : literalTail? c text = some n := by
  unfold literalTail? at h ⊢
  split at h
  · rename_i hprime
    rw [if_pos hprime]
    exact (charTail?_append_eq_some_iff hn more).mp h
  · rename_i hprime
    rw [if_neg hprime]
    split at h
    · rename_i hquote
      obtain rfl := Option.some.inj h
      rw [if_pos hquote, stringTail_of_append hn]
    · cases h

/-- What is no literal is none without the text after it. -/
theorem literalTail?_eq_none_of_append {c : Char} {text more : Text}
    (h : literalTail? c (text ++ more) = none) : literalTail? c text = none := by
  unfold literalTail? at h ⊢
  split at h
  · rename_i hprime
    rw [if_pos hprime]
    cases htail : charTail? text with
    | none => rfl
    | some n =>
      rw [(charTail?_append_eq_some_iff (charTail?_le htail) more).mpr htail] at h
      cases h
  · rename_i hprime
    rw [if_neg hprime]
    split at h
    · cases h
    · rename_i hquote
      rw [if_neg hquote]

namespace Text

/-- The first pieces of a text are the pieces of what they make up. -/
theorem pieces_textOf_of_eq_append {text : Text} {ps qs : List Piece} (h : text.pieces = ps ++ qs) :
    pieces (Piece.textOf ps) = ps := by
  induction text using pieces.induct generalizing ps with
  | case1 =>
    rw [pieces_nil] at h
    rw [(List.append_eq_nil_iff.mp h.symm).1]
    exact pieces_nil
  | case2 c rest n htail ih =>
    cases ps with
    | nil => exact pieces_nil
    | cons p ps =>
      rw [pieces_literal htail, List.cons_append, List.cons.injEq] at h
      obtain ⟨rfl, hrest⟩ := h
      have hlength : (rest.take n).length = n := List.length_take_of_le (literalTail?_le htail)
      have hsplit : rest = rest.take n ++ Piece.textOf ps ++ Piece.textOf qs := by
        rw [List.append_assoc, ← Piece.textOf_append, ← hrest, textOf_pieces, List.take_append_drop]
      have hle : n ≤ (rest.take n ++ Piece.textOf ps).length := by
        rw [List.length_append, hlength]
        exact Nat.le_add_right ..
      rw [hsplit] at htail
      have hread := pieces_literal (literalTail?_of_append hle htail)
      rw [List.take_append_of_le_length (Nat.le_of_eq hlength.symm), List.take_take, Nat.min_self,
        List.drop_append_of_le_length (Nat.le_of_eq hlength.symm),
        List.drop_of_length_le (Nat.le_of_eq hlength), List.nil_append, ih hrest] at hread
      exact hread
  | case3 c rest htail harrow ih =>
    obtain ⟨rfl, hhead⟩ := harrow
    obtain ⟨more, rfl⟩ := List.head?_eq_some_iff.mp hhead
    cases ps with
    | nil => exact pieces_nil
    | cons p ps =>
      rw [pieces_arrow, List.cons_append, List.cons.injEq] at h
      obtain ⟨rfl, hrest⟩ := h
      have hread := pieces_arrow (Piece.textOf ps)
      rwa [ih hrest] at hread
  | case4 c rest htail harrow ih =>
    cases ps with
    | nil => exact pieces_nil
    | cons p ps =>
      rw [pieces_plain htail harrow, List.cons_append, List.cons.injEq] at h
      obtain ⟨rfl, hrest⟩ := h
      have hsplit : rest = Piece.textOf ps ++ Piece.textOf qs := by
        rw [← Piece.textOf_append, ← hrest, textOf_pieces]
      rw [hsplit] at htail harrow
      have hplain : ¬(c = '=' ∧ (Piece.textOf ps).head? = some '>') := by
        rintro ⟨hc, hhead⟩
        exact harrow ⟨hc, by rw [List.head?_append, hhead, Option.some_or]⟩
      have hread := pieces_plain (literalTail?_eq_none_of_append htail) hplain
      rwa [ih hrest] at hread

/-! ### Dividing a text at its commas -/

/-- The parts between the commas of a text at the top level, front to back. -/
inductive Divided : Text → List Text → Prop
  | whole {text : Text} (lacks : Lacks [','] zero text.pieces) : Divided text [text]
  | comma {front rest : Text} {parts : List Text}
    (reads : pieces (front ++ ',' :: rest) = front.pieces ++ .plain ',' :: rest.pieces)
    (lacks : Lacks [','] zero front.pieces) (closed : zero.through front.pieces = zero)
    (divided : Divided rest parts) : Divided (front ++ ',' :: rest) (front :: parts)

theorem Divided.cutTop_eq {text : Text} {parts : List Text} (h : Divided text parts) :
    text.cutTop [','] = parts := by
  induction h with
  | whole lacks => rw [cutTop, cutFrom_of_lacks lacks, textOf_pieces]
  | @comma front rest parts reads lacks closed _ ih =>
    have hcomma : cutFrom [','] zero (.plain ',' :: rest.pieces) = [] :: parts :=
      (cutFrom_separator rfl rfl _).trans (congrArg ([] :: ·) ih)
    rw [cutTop, reads, cutFrom_append_of_lacks lacks, closed, hcomma, textOf_pieces]
    simp

theorem exists_divided (text : Text) : ∃ parts, Divided text parts := by
  induction hlength : text.length using Nat.strongRecOn generalizing text with
  | ind n ih =>
    by_cases hlacks : Lacks [','] zero text.pieces
    · exact ⟨[text], .whole hlacks⟩
    obtain ⟨front, p, rest, hpieces, hfront, htop, hsep⟩ := exists_of_not_lacks hlacks
    obtain rfl : p = .plain ',' := by
      cases p with
      | literal text => cases hsep
      | arrow => cases hsep
      | plain c => rw [(List.cons.inj (Option.some.inj hsep)).1]
    have htext : text = Piece.textOf front ++ ',' :: Piece.textOf rest := by
      rw [← textOf_pieces text, hpieces, Piece.textOf_append, Piece.textOf_cons]
      rfl
    have hread : pieces (Piece.textOf front) = front := pieces_textOf_of_eq_append hpieces
    have hrest : pieces (Piece.textOf rest) = rest := by
      rw [List.append_cons] at hpieces
      exact pieces_textOf_of_append hpieces
    obtain ⟨parts, hparts⟩ := ih (Piece.textOf rest).length
      (by rw [← hlength, htext, List.length_append, List.length_cons]; omega) _ rfl
    rw [htext] at hpieces ⊢
    refine ⟨Piece.textOf front :: parts, .comma ?_ ?_ ?_ hparts⟩
    · rw [hread, hrest, hpieces]
    · rwa [hread]
    · rw [hread, ← atTop_iff, htop]

theorem divided_cutTop (text : Text) : Divided text (text.cutTop [',']) := by
  obtain ⟨parts, h⟩ := exists_divided text
  rwa [h.cutTop_eq]

theorem Divided.lacks {text : Text} {parts : List Text} (h : Divided text parts) :
    ∀ part ∈ parts, Lacks [','] zero part.pieces := by
  induction h with
  | whole lacks => exact List.forall_mem_singleton.mpr lacks
  | comma _ lacks _ _ ih => exact List.forall_mem_cons.mpr ⟨lacks, ih⟩

theorem Divided.ne_nil {text : Text} {parts : List Text} (h : Divided text parts) : parts ≠ [] := by
  cases h <;> exact List.cons_ne_nil _ _

theorem Divided.join_eq {text : Text} {parts : List Text} (h : Divided text parts) :
    join [','] parts = text := by
  induction h with
  | whole => exact join_singleton ..
  | comma _ _ _ divided ih =>
    obtain ⟨next, more, rfl⟩ := List.exists_cons_of_ne_nil divided.ne_nil
    rw [join_cons_cons, ih]
    simp

/-! ### The offsets of the commas -/

/-- The offsets of the commas of a text at the top level. -/
def commas (text : Text) : List Nat :=
  (text.topLevel.filter fun place => place.2 == [',']).map Prod.fst

/-- The slices of a text from an offset on, between characters at further offsets. -/
def slices (text : Text) (start : Nat) : List Nat → List Text
  | [] => [text.drop start]
  | stop :: more => (text.take stop).drop start :: slices text (stop + 1) more

theorem topLevelFrom_add (index k : Nat) (d : Depth) (ps : List Piece) :
    topLevelFrom (index + k) d ps =
      (topLevelFrom index d ps).map fun place => (place.1 + k, place.2) := by
  induction ps generalizing index d with
  | nil => rfl
  | cons p ps ih =>
    rw [topLevelFrom, topLevelFrom, Nat.add_right_comm, ih]
    cases p.separator? with
    | none => rfl
    | some lexeme => by_cases htop : d.atTop = true <;> simp [htop]

theorem commas_eq_nil_iff {text : Text} : text.commas = [] ↔ Lacks [','] zero text.pieces := by
  rw [lacks_iff 0, commas, List.map_eq_nil_iff, List.filter_eq_nil_iff]
  constructor
  · intro h offset hmem
    exact h _ hmem (by simp)
  · rintro h ⟨offset, lexeme⟩ hmem hlexeme
    obtain rfl : lexeme = [','] := by simpa using hlexeme
    exact h offset hmem

theorem commas_append {front rest : Text}
    (reads : pieces (front ++ ',' :: rest) = front.pieces ++ .plain ',' :: rest.pieces)
    (lacks : Lacks [','] zero front.pieces) (closed : zero.through front.pieces = zero) :
    commas (front ++ ',' :: rest) =
      front.length :: rest.commas.map fun offset => offset + (front.length + 1) := by
  have hfront : (topLevelFrom 0 zero front.pieces).filter (fun place => place.2 == [',']) = [] :=
    List.map_eq_nil_iff.mp (commas_eq_nil_iff.mpr lacks)
  have hrest : topLevelFrom (front.length + 1) zero rest.pieces =
      rest.topLevel.map fun place => (place.1 + (front.length + 1), place.2) := by
    rw [← Nat.zero_add (front.length + 1), topLevelFrom_add, topLevel, Nat.zero_add]
  have hcomma : topLevelFrom front.length zero (.plain ',' :: rest.pieces) =
      (front.length, [',']) :: topLevelFrom (front.length + 1) zero rest.pieces := rfl
  rw [commas, topLevel, reads, topLevelFrom_append, closed, textOf_pieces, Nat.zero_add, hcomma,
    hrest, List.filter_append, hfront, List.nil_append, List.filter_cons_of_pos (by simp),
    List.filter_map, List.map_cons, List.map_map, commas, List.map_map]
  rfl

theorem slices_append (front rest : Text) (start : Nat) (offsets : List Nat) :
    slices (front ++ rest) (start + front.length) (offsets.map (· + front.length)) =
      slices rest start offsets := by
  induction offsets generalizing start with
  | nil => rw [List.map_nil, slices, slices, Nat.add_comm, List.drop_length_add_append]
  | cons stop more ih =>
    rw [List.map_cons, slices, slices, Nat.add_right_comm, ih, Nat.add_comm stop,
      List.take_length_add_append, Nat.add_comm start, List.drop_length_add_append]

theorem Divided.slices_eq {text : Text} {parts : List Text} (h : Divided text parts) :
    slices text 0 text.commas = parts := by
  induction h with
  | whole lacks =>
    rw [commas_eq_nil_iff.mpr lacks]
    rfl
  | @comma front rest parts reads lacks closed _ ih =>
    have hrest : slices (front ++ ',' :: rest) (front.length + 1)
        (rest.commas.map fun offset => offset + (front.length + 1)) = parts := by
      have hslices := slices_append (front ++ [',']) rest 0 rest.commas
      rwa [ih, List.append_assoc, Nat.zero_add, List.length_append] at hslices
    rw [commas_append reads lacks closed, slices, hrest, List.take_left, List.drop_zero]

/-! ### Trimmed parts -/

theorem trim_trim (text : Text) : text.trim.trim = text.trim := by
  obtain ⟨before, after, htext, hbefore, hafter⟩ := exists_eq_trim text
  have htrim := congrArg trim htext
  rw [trim_append_blanks hafter, trim_blanks_append hbefore] at htrim
  exact htrim.symm

/-- Blanks at the ends of a text neither hide a comma nor bring one out. -/
theorem lacks_trim_iff {text : Text} :
    Lacks [','] zero text.trim.pieces ↔ Lacks [','] zero text.pieces := by
  obtain ⟨before, after, htext, hbefore, hafter⟩ := exists_eq_trim text
  obtain ⟨ps, qs, rs, hqs, hrs, -, hlacksQ, hlacksR⟩ := exists_pieces_append_blanks hafter text.trim
  have hread : pieces (before ++ (text.trim ++ after)) =
      before.pieces ++ pieces (text.trim ++ after) := by
    rw [pieces_inert_append fun c hc => (flat_of_blanks hbefore c hc).1, pieces_blanks hbefore]
  rw [← List.append_assoc, ← htext] at hread
  have hthrough : zero.through before.pieces = zero :=
    (undivided_flat (flat_of_blanks hbefore)).through zero
  rw [hread, hrs, hqs, lacks_append, lacks_append, lacks_append, hthrough]
  simp only [lacks_of_forall_ne hlacksQ, lacks_of_forall_ne hlacksR,
    lacks_of_forall_ne (ne_comma_of_mem_pieces hbefore), and_true, true_and]

theorem map_trim_cutTop (text : Text) :
    (text.cutTop [',']).map trim = text.splitTop [','] ∨
      (text.cutTop [',']).map trim = text.splitTop [','] ++ [[]] := by
  unfold splitTop
  dsimp only
  split
  · rename_i hlast
    obtain ⟨front, hfront⟩ := List.getLast?_eq_some_iff.mp hlast
    right
    rw [hfront, List.dropLast_concat]
  · exact .inl rfl

theorem exists_of_mem_splitTop {text part : Text} (h : part ∈ text.splitTop [',']) :
    ∃ whole ∈ text.cutTop [','], whole.trim = part := by
  rw [← List.mem_map]
  rcases map_trim_cutTop text with hparts | hparts
  · rwa [hparts]
  · rw [hparts]
    exact List.mem_append_left _ h

theorem splitTop_of_lacks {text : Text} (h : Lacks [','] zero text.pieces) :
    text.splitTop [','] = if text.trim = [] then [] else [text.trim] := by
  rw [splitTop, cutTop, cutFrom_of_lacks h, textOf_pieces]
  simp

/-! ### Joining -/

/-- A text without literals that joining by commas sets apart. -/
structure Joinable (part : Text) : Prop where
  ne_nil : part ≠ []
  trimmed : part.trim = part
  quoteless : Quoteless part
  balanced : part.isBalanced = true
  undivided : part.commas = []

theorem Divided.blank {text : Text} {parts : List Text} (h : Divided text parts) :
    Divided (' ' :: text) (parts.modifyHead (' ' :: ·)) := by
  have hblank : Inert ' ' := ⟨rfl, by decide⟩
  cases h with
  | whole lacks =>
    refine .whole ?_
    rw [pieces_inert hblank]
    exact ⟨by simp [Piece.separator?], lacks⟩
  | @comma front rest parts reads lacks closed divided =>
    refine @Divided.comma (' ' :: front) rest parts ?_ ?_ ?_ divided
    · rw [List.cons_append, pieces_inert hblank, pieces_inert hblank, reads, List.cons_append]
    · rw [pieces_inert hblank]
      exact ⟨by simp [Piece.separator?], lacks⟩
    · rw [pieces_inert hblank]
      exact closed

theorem complete_of_quoteless {text : Text} (h : Quoteless text) : Complete text := by
  refine (complete_or_endsOpen text).resolve_right fun hopen => ?_
  obtain ⟨ps, opened, hpieces, -⟩ := hopen.pieces_eq
  apply literal_not_mem_pieces h opened
  rw [hpieces]
  exact List.mem_concat_self

theorem quoteless_join {parts : List Text} (h : ∀ part ∈ parts, Quoteless part) :
    Quoteless (join commaBlank parts) := by
  induction parts with
  | nil => exact fun c hc => absurd hc List.not_mem_nil
  | cons part more ih =>
    obtain ⟨hpart, hmore⟩ := List.forall_mem_cons.mp h
    cases more with
    | nil => rwa [join_singleton]
    | cons next more =>
      have hcomma : Quoteless commaBlank := by decide
      rw [join_cons_cons]
      exact List.forall_mem_append.mpr ⟨List.forall_mem_append.mpr ⟨hpart, hcomma⟩, ih hmore⟩

theorem divided_join {part : Text} {more : List Text} (h : ∀ p ∈ part :: more, Joinable p) :
    Divided (join commaBlank (part :: more)) (part :: more.map (' ' :: ·)) := by
  induction more generalizing part with
  | nil =>
    rw [join_singleton]
    exact .whole (commas_eq_nil_iff.mp (h part List.mem_cons_self).undivided)
  | cons next more ih =>
    obtain ⟨hpart, hmore⟩ := List.forall_mem_cons.mp h
    have hcomma : Inert ',' := ⟨rfl, by decide⟩
    have hjoin : Quoteless (' ' :: join commaBlank (next :: more)) :=
      List.forall_mem_cons.mpr ⟨rfl, quoteless_join fun p hp => (hmore p hp).quoteless⟩
    have hneutral : Neutral (',' :: ' ' :: join commaBlank (next :: more)) :=
      .cons hjoin hcomma (by decide)
    rw [join_cons_cons, List.append_assoc]
    refine .comma ?_ (commas_eq_nil_iff.mp hpart.undivided) ?_ (ih hmore).blank
    · exact (complete_of_quoteless hpart.quoteless _ hneutral).trans
        (congrArg (part.pieces ++ ·) (pieces_inert hcomma _))
    · exact through_of_balanced hpart.balanced zero

theorem splitTop_join_of_joinable {parts : List Text} (h : ∀ part ∈ parts, Joinable part) :
    (join commaBlank parts).splitTop [','] = parts := by
  cases parts with
  | nil => simp [splitTop, cutTop, cutFrom, trim, trimStart, trimEnd]
  | cons part more =>
    obtain ⟨hpart, hmore⟩ := List.forall_mem_cons.mp h
    have hblank : more.map (trim ∘ (' ' :: ·)) = more := by
      have hid : ∀ p ∈ more, (trim ∘ (' ' :: ·)) p = id p := fun p hp =>
        (trim_blank_cons rfl p).trans (hmore p hp).trimmed
      rw [List.map_congr_left hid, List.map_id]
    have htrim : ((join commaBlank (part :: more)).cutTop [',']).map trim = part :: more := by
      rw [(divided_join h).cutTop_eq, List.map_cons, List.map_map, hblank, hpart.trimmed]
    have hlast : (part :: more).getLast? ≠ some [] := fun hnil =>
      (h [] (List.mem_of_getLast? hnil)).ne_nil rfl
    simp only [splitTop, htrim]
    exact if_neg hlast

/-! ### Splitting and joining -/

/-- Splitting undoes joining on the text: its pieces are the slices between its commas and give it
back when they are joined, its parts are these pieces without blanks around them, a last blank one
left out, and no part divides further. -/
structure SplitsAtCommas (text : Text) : Prop where
  sliced : text.cutTop [','] = slices text 0 text.commas
  joined : join [','] (text.cutTop [',']) = text
  trimmed : (text.cutTop [',']).map trim = text.splitTop [','] ∨
    (text.cutTop [',']).map trim = text.splitTop [','] ++ [[]]
  undivided : ∀ part ∈ text.splitTop [','],
    part.commas = [] ∧ part.splitTop [','] = if part = [] then [] else [part]

theorem splitsAtCommas (text : Text) : SplitsAtCommas text where
  sliced := (divided_cutTop text).slices_eq.symm
  joined := (divided_cutTop text).join_eq
  trimmed := map_trim_cutTop text
  undivided := by
    intro part hpart
    obtain ⟨whole, hwhole, rfl⟩ := exists_of_mem_splitTop hpart
    have hlacks := lacks_trim_iff.mpr ((divided_cutTop text).lacks whole hwhole)
    refine ⟨commas_eq_nil_iff.mpr hlacks, ?_⟩
    rw [splitTop_of_lacks hlacks, trim_trim]

/-- Splitting at the commas is the inverse of joining by them: of every text it makes parts that
no comma divides and that give the text back, and of joined texts without quotes, each of them
balanced and undivided, it makes these texts again. -/
theorem split_inverts_join :
    (∀ text : Text, SplitsAtCommas text) ∧
      ∀ parts : List Text, (∀ part ∈ parts, Joinable part) →
        (join commaBlank parts).splitTop [','] = parts :=
  ⟨splitsAtCommas, fun _ => splitTop_join_of_joinable⟩

/-- Arrows, brackets of every shape and an equals sign before the comma are no hindrance. -/
theorem split_join_bracketed :
    let parts := ["(a, b) => c".toList, "\x7bx: t<int, u>\x7d".toList, "~l: a=".toList, "z".toList]
    (∀ part ∈ parts, Joinable part) ∧ (join commaBlank parts).splitTop [','] = parts := by
  intro parts
  have hparts : ∀ part ∈ parts, Joinable part := by
    intro part hpart
    simp only [parts, List.mem_cons, List.not_mem_nil, or_false] at hpart
    rcases hpart with rfl | rfl | rfl | rfl
    all_goals exact ⟨by decide, by decide, by decide, by decide +kernel, by decide +kernel⟩
  exact ⟨hparts, split_inverts_join.2 parts hparts⟩

end Text

end ForeignBindings
