import ForeignBindings.Proofs.Nesting.Depth
import ForeignBindings.Proofs.Nesting.Literal

/-! Reading texts that are put together from others.  A text that stands alone is read the same way
inside a longer text.  Parts that stand alone, are balanced and lack commas at the top level come
back when a text of them, joined by commas, is split. -/

namespace ForeignBindings.Text

open Depth

/-! ### The pieces of a text, from its front -/

theorem pieces_plain {c : Char} {rest : Text} (htail : literalTail? c rest = none)
    (harrow : ¬(c = '=' ∧ rest.head? = some '>')) :
    pieces (c :: rest) = .plain c :: pieces rest := by
  rw [pieces, htail]
  exact if_neg harrow

theorem pieces_literal {c : Char} {rest : Text} {n : Nat}
    (h : literalTail? c rest = some n) :
    pieces (c :: rest) = .literal (c :: rest.take n) :: pieces (rest.drop n) := by
  rw [pieces, h]

/-- A character that opens no literal and begins no arrow. -/
def Inert (c : Char) : Prop := isQuote c = false ∧ c ≠ '='

instance : DecidablePred Inert := fun c =>
  inferInstanceAs (Decidable (isQuote c = false ∧ c ≠ '='))

theorem ne_of_bracket? {c d : Char} {b : Bracket} (hc : bracket? c = some b)
    (hd : bracket? d = none) : c ≠ d := by
  rintro rfl
  rw [hd] at hc
  cases hc

theorem mem_of_bracket? {c : Char} {b : Bracket} (h : bracket? c = some b) :
    c ∈ ['(', ')', '<', '>', '\x7b', '\x7d', '\x5b', '\x5d'] := by
  apply Decidable.byContradiction
  intro hnone
  simp only [List.mem_cons, List.not_mem_nil, or_false, not_or] at hnone
  simp [bracket?, hnone] at h

/-- Characters of a class that no bracket belongs to are no brackets. -/
theorem bracket?_eq_none {p : Char → Bool} {c : Char} (hc : p c = true)
    (hp : ['(', ')', '<', '>', '\x7b', '\x7d', '\x5b', '\x5d'].any p = false) :
    bracket? c = none := by
  cases h : bracket? c with
  | none => rfl
  | some b => exact absurd hc (List.any_eq_false.mp hp c (mem_of_bracket? h))

theorem ne_of_isBlank {c d : Char} (hc : isBlank c = true) (hd : isBlank d = false) : c ≠ d := by
  rintro rfl
  exact Bool.false_ne_true (hd.symm.trans hc)

theorem inert_of_isBlank {c : Char} (h : isBlank c = true) : Inert c := by
  refine ⟨?_, ne_of_isBlank h rfl⟩
  simp [isQuote, @ne_of_isBlank c '\x22' h rfl, @ne_of_isBlank c '\x27' h rfl,
    @ne_of_isBlank c '\x60' h rfl]

theorem solid_of_bracket? {c : Char} {b : Bracket} (h : bracket? c = some b) : Solid c := by
  rw [Solid, Bool.eq_false_iff]
  intro hblank
  rw [bracket?_eq_none hblank (by decide)] at h
  cases h

theorem inert_of_bracket? {c : Char} {b : Bracket} (h : bracket? c = some b) : Inert c := by
  constructor
  · rw [isQuote, Bool.eq_false_iff]
    intro hq
    simp only [Bool.or_eq_true, beq_iff_eq] at hq
    rcases hq with (rfl | rfl) | rfl <;> simp [bracket?] at h
  · rintro rfl
    simp [bracket?] at h

theorem Inert.literalTail? {c : Char} (h : Inert c) (rest : Text) :
    literalTail? c rest = none := by
  have hprime : c ≠ '\x27' := by
    rintro rfl
    exact absurd h.1 (by decide)
  rw [ForeignBindings.literalTail?, if_neg hprime, h.1]
  rfl

theorem pieces_inert {c : Char} (h : Inert c) (rest : Text) :
    pieces (c :: rest) = .plain c :: pieces rest :=
  pieces_plain (h.literalTail? rest) fun harrow => h.2 harrow.1

theorem pieces_inert_append {text : Text} (h : ∀ c ∈ text, Inert c) (rest : Text) :
    pieces (text ++ rest) = text.map .plain ++ pieces rest := by
  induction text with
  | nil => rfl
  | cons c text ih =>
    rw [List.cons_append, pieces_inert (h c (by simp)), ih fun d hd => h d (by simp [hd])]
    rfl

theorem pieces_arrow (rest : Text) : pieces ('=' :: '>' :: rest) = .arrow :: pieces rest := by
  rw [pieces, show literalTail? '=' ('>' :: rest) = none from rfl]
  rfl

theorem pieces_equals {rest : Text} (h : rest.head? ≠ some '>') :
    pieces ('=' :: rest) = .plain '=' :: pieces rest :=
  pieces_plain rfl fun harrow => h harrow.2

theorem pieces_prime {rest : Text} (h : charTail? rest = none) :
    pieces ('\x27' :: rest) = .plain '\x27' :: pieces rest :=
  pieces_plain (by rw [literalTail?, if_pos rfl, h]) fun harrow => absurd harrow.1 (by decide)

@[simp] theorem pieces_nil : pieces [] = [] := by rw [pieces]

theorem textOf_pieces (text : Text) : Piece.textOf text.pieces = text := by
  induction text using pieces.induct with
  | case1 => simp [Piece.textOf]
  | case2 c rest n htail ih =>
    simp only [Piece.textOf] at ih
    rw [pieces, htail]
    simp [Piece.textOf, Piece.text, ih]
  | case3 c rest htail harrow ih =>
    obtain ⟨rfl, hhead⟩ := harrow
    obtain ⟨more, rfl⟩ := List.head?_eq_some_iff.mp hhead
    rw [pieces_arrow]
    simpa [Piece.textOf, Piece.text, Piece.arrowText] using ih
  | case4 c rest htail harrow ih =>
    rw [pieces_plain htail harrow]
    simpa [Piece.textOf, Piece.text] using ih

theorem pieces_textOf_of_cons {text : Text} {p : Piece} {ps : List Piece}
    (h : text.pieces = p :: ps) : pieces (Piece.textOf ps) = ps := by
  have htail : ∃ rest : Text, rest.pieces = ps := by
    cases text with
    | nil => rw [pieces_nil] at h; cases h
    | cons c rest =>
      rw [pieces] at h
      split at h
      · exact ⟨_, (List.cons.inj h).2⟩
      · split at h
        · exact ⟨_, (List.cons.inj h).2⟩
        · exact ⟨_, (List.cons.inj h).2⟩
  obtain ⟨rest, rfl⟩ := htail
  rw [textOf_pieces]

/-- The last pieces of a text are the pieces of what they make up. -/
theorem pieces_textOf_of_append {text : Text} {ps qs : List Piece} (h : text.pieces = ps ++ qs) :
    pieces (Piece.textOf qs) = qs := by
  induction ps generalizing text with
  | nil =>
    obtain rfl : text.pieces = qs := h
    rw [textOf_pieces]
  | cons p ps ih => exact ih (pieces_textOf_of_cons h)

theorem literal_not_mem_pieces {text : Text} (h : Quoteless text) (l : Text) :
    .literal l ∉ text.pieces := by
  induction text using pieces.induct with
  | case1 => simp
  | case2 c rest n htail ih =>
    have hquote := h c List.mem_cons_self
    have hprime : c ≠ '\x27' := by
      rintro rfl
      exact absurd hquote (by decide)
    rw [literalTail?, if_neg hprime, hquote] at htail
    cases htail
  | case3 c rest htail harrow ih =>
    obtain ⟨rfl, hhead⟩ := harrow
    obtain ⟨more, rfl⟩ := List.head?_eq_some_iff.mp hhead
    rw [pieces_arrow, List.mem_cons, not_or]
    exact ⟨by simp, ih fun d hd => h d (List.mem_cons_of_mem _ (List.mem_of_mem_drop hd))⟩
  | case4 c rest htail harrow ih =>
    rw [pieces_plain htail harrow]
    simp [ih fun d hd => h d (List.mem_cons_of_mem _ hd)]

/-! ### Texts that stand alone -/

/-- Before anything but a single quote, the text is read as it is on its own. -/
def Standalone (text : Text) : Prop :=
  ∀ rest : Text, rest.head? ≠ some '\x27' → pieces (text ++ rest) = text.pieces ++ rest.pieces

theorem standalone_nil : Standalone [] := fun rest _ => by simp

theorem Standalone.append {text more : Text} (ht : Standalone text) (hm : Standalone more)
    (hhead : more.head? ≠ some '\x27') : Standalone (text ++ more) := by
  intro rest hrest
  have hhead' : (more ++ rest).head? ≠ some '\x27' := by
    cases more with
    | nil => exact hrest
    | cons c more => simpa using hhead
  rw [List.append_assoc, ht _ hhead', hm rest hrest, ht more hhead, List.append_assoc]

theorem Standalone.cons {text : Text} (h : Standalone text) {c : Char} (hc : Inert c) :
    Standalone (c :: text) := by
  intro rest hrest
  rw [List.cons_append, pieces_inert hc, pieces_inert hc, h rest hrest, List.cons_append]

theorem standalone_inert {text : Text} (h : ∀ c ∈ text, Inert c) : Standalone text := by
  intro rest _
  have hself := pieces_inert_append h []
  rw [List.append_nil, pieces_nil, List.append_nil] at hself
  rw [pieces_inert_append h, hself]

theorem Standalone.arrow {text : Text} (h : Standalone text) :
    Standalone ('=' :: '>' :: text) := by
  intro rest hrest
  rw [List.cons_append, List.cons_append, pieces_arrow, pieces_arrow, h rest hrest,
    List.cons_append]

theorem head?_bracket_ne {c : Char} {b : Bracket} (h : bracket? c = some b) (rest : Text) :
    (c :: rest).head? ≠ some '\x27' := by
  rintro heq
  rw [List.head?_cons, Option.some.injEq] at heq
  subst heq
  simp [bracket?] at h

theorem Standalone.enclosed {text : Text} (h : Standalone text) {opening closing : Char}
    (pair : Pair opening closing) : Standalone (enclosed opening closing text) := by
  have hopening := inert_of_bracket? pair.bracket_opening
  have hclosing := inert_of_bracket? pair.bracket_closing
  apply Standalone.cons _ hopening
  apply h.append
  · apply standalone_inert
    intro c hc
    rwa [List.mem_singleton.mp hc]
  · exact head?_bracket_ne pair.bracket_closing []

theorem Standalone.pieces_enclosed {text : Text} (h : Standalone text) {opening closing : Char}
    (pair : Pair opening closing) (rest : Text) :
    pieces (Text.enclosed opening closing text ++ rest) =
      .plain opening :: (text.pieces ++ .plain closing :: rest.pieces) := by
  simp only [Text.enclosed, List.cons_append, List.append_assoc, List.nil_append]
  rw [pieces_inert (inert_of_bracket? pair.bracket_opening),
    h _ (head?_bracket_ne pair.bracket_closing rest),
    pieces_inert (inert_of_bracket? pair.bracket_closing)]

/-! ### Balanced texts -/

@[simp] theorem isBalanced_nil : isBalanced [] = true := by
  rw [isBalanced, pieces_nil]
  rfl

theorem isBalanced_enclosed {text : Text} (ht : Standalone text) (hb : text.isBalanced = true)
    {opening closing : Char} (pair : Pair opening closing) :
    isBalanced (enclosed opening closing text) = true := by
  have hpieces := ht.pieces_enclosed pair []
  rw [List.append_nil, pieces_nil] at hpieces
  rw [isBalanced, hpieces, pair.balancedFrom_enclosed hb]
  rfl

/-- The text stands alone, is balanced, and the separator stands nowhere in it at the top level. -/
structure Undivided (separator text : Text) : Prop where
  standalone : text.Standalone
  balanced : text.isBalanced = true
  lacks : Lacks separator zero text.pieces

theorem Undivided.through {separator text : Text} (h : Undivided separator text) (d : Depth) :
    d.through text.pieces = d :=
  through_of_balanced h.balanced d

theorem Undivided.append {separator text more : Text} (ht : Undivided separator text)
    (hm : Undivided separator more) (hhead : more.head? ≠ some '\x27') :
    Undivided separator (text ++ more) := by
  refine ⟨ht.standalone.append hm.standalone hhead, ?_, ?_⟩
  · rw [isBalanced, ht.standalone more hhead]
    exact balanced_append ht.balanced hm.balanced
  · rw [ht.standalone more hhead, lacks_append, ht.through]
    exact ⟨ht.lacks, hm.lacks⟩

theorem undivided_nil (separator : Text) : Undivided separator [] :=
  ⟨standalone_nil, isBalanced_nil, by rw [pieces_nil]; trivial⟩

/-- Characters that are no brackets, no quotes and not the separator do not divide what follows. -/
theorem Undivided.flat_append {separator front text : Text} (h : Undivided separator text)
    (hfront : ∀ c ∈ front, Inert c ∧ bracket? c = none ∧ separator ≠ [c]) :
    Undivided separator (front ++ text) := by
  induction front with
  | nil => exact h
  | cons c front ih =>
    obtain ⟨hinert, hbracket, hne⟩ := hfront c (by simp)
    have hrest := ih fun d hd => hfront d (by simp [hd])
    have hfeed : Piece.feed zero (.plain c) = zero := by
      simp only [Piece.feed, Depth.feed, hbracket]
    refine ⟨hrest.standalone.cons hinert, ?_, ?_⟩
    · rw [isBalanced, List.cons_append, pieces_inert hinert, balancedFrom_cons, hfeed]
      exact ⟨rfl, hrest.balanced⟩
    · rw [List.cons_append, pieces_inert hinert]
      constructor
      · intro hsep
        exact hne (by simpa [Piece.separator?] using hsep.2.symm)
      · rw [hfeed]
        exact hrest.lacks

theorem undivided_flat {separator text : Text}
    (h : ∀ c ∈ text, Inert c ∧ bracket? c = none ∧ separator ≠ [c]) :
    Undivided separator text := by
  simpa using (undivided_nil separator).flat_append h

theorem flat_blank {separator : Text} (h : separator ≠ [' ']) :
    ∀ c ∈ [' '], Inert c ∧ bracket? c = none ∧ separator ≠ [c] := by
  intro c hc
  rw [List.mem_singleton.mp hc]
  exact ⟨⟨rfl, by decide⟩, rfl, h⟩

theorem undivided_arrow {separator : Text} (h : separator ≠ Piece.arrowText) :
    Undivided separator Piece.arrowText := by
  have hpieces : Piece.arrowText.pieces = [.arrow] := by
    rw [Piece.arrowText, pieces_arrow, pieces_nil]
  refine ⟨standalone_nil.arrow, ?_, ?_⟩
  · rw [isBalanced, hpieces]
    rfl
  · rw [hpieces]
    exact ⟨fun hsep => h (by simpa [Piece.separator?] using hsep.2.symm), trivial⟩

theorem undivided_optional {separator : Text} (hequals : separator ≠ ['='])
    (hmark : separator ≠ ['?']) : Undivided separator ['=', '?'] := by
  have hread (rest : Text) :
      pieces ('=' :: '?' :: rest) = .plain '=' :: .plain '?' :: pieces rest := by
    rw [pieces_equals (by simp), pieces_inert ⟨rfl, by decide⟩]
  have hpieces : pieces ['=', '?'] = [.plain '=', .plain '?'] := by rw [hread, pieces_nil]
  refine ⟨?_, ?_, ?_⟩
  · intro rest _
    rw [hpieces]
    exact hread rest
  · rw [isBalanced, hpieces]
    rfl
  · rw [hpieces]
    exact ⟨fun hsep => hequals (by simpa [Piece.separator?] using hsep.2.symm),
      fun hsep => hmark (by simpa [Piece.separator?] using hsep.2.symm), trivial⟩

theorem undivided_enclosed {separator text : Text} (ht : Standalone text)
    (hb : text.isBalanced = true) {opening closing : Char} (pair : Pair opening closing)
    (hne : separator ≠ [opening]) : Undivided separator (enclosed opening closing text) := by
  have hpieces := ht.pieces_enclosed pair []
  rw [List.append_nil, pieces_nil] at hpieces
  refine ⟨ht.enclosed pair, isBalanced_enclosed ht hb pair, ?_⟩
  rw [hpieces]
  exact pair.lacks_enclosed hb hne trivial

/-! ### Finding a separator -/

theorem findTop?_eq_none_iff {text separator : Text} :
    text.findTop? separator = none ↔ Lacks separator zero text.pieces := by
  rw [findTop?, topLevel, Option.map_eq_none_iff, find?_topLevelFrom_eq_none_iff]

theorem findTop?_of_pieces {text : Text} {p : Piece} {front rest : List Piece}
    (hpieces : text.pieces = front ++ p :: rest) (hlacks : Lacks p.text zero front)
    (htop : (zero.through front).atTop = true) (hsep : p.separator? = some p.text) :
    text.findTop? p.text = some (Piece.textOf front).length := by
  rw [findTop?, topLevel, hpieces, topLevelFrom_append, List.find?_append,
    find?_topLevelFrom_eq_none_iff.mpr hlacks, topLevelFrom, hsep, htop]
  simp

theorem findTop?_append {text front : Text} {p : Piece} {rest : List Piece}
    (hpieces : text.pieces = front.pieces ++ p :: rest) (hfront : Undivided p.text front)
    (hsep : p.separator? = some p.text) : text.findTop? p.text = some front.length := by
  have htop : (zero.through front.pieces).atTop = true := by rw [hfront.through, zero_atTop]
  rw [findTop?_of_pieces hpieces hfront.lacks htop hsep, textOf_pieces]

theorem cutAtTop?_of_pieces {text : Text} {p : Piece} {front rest : List Piece}
    (hpieces : text.pieces = front ++ p :: rest) (hlacks : Lacks p.text zero front)
    (htop : (zero.through front).atTop = true) (hsep : p.separator? = some p.text) :
    text.cutAtTop? p.text = some (Piece.textOf front, Piece.textOf rest) := by
  have htext : text = Piece.textOf front ++ (p.text ++ Piece.textOf rest) := by
    rw [← textOf_pieces text, hpieces, Piece.textOf_append, Piece.textOf_cons]
  rw [cutAtTop?, findTop?_of_pieces hpieces hlacks htop hsep, Option.map_some]
  simp [htext]

theorem cutAtTop?_eq_none_iff {text separator : Text} :
    text.cutAtTop? separator = none ↔ Lacks separator zero text.pieces := by
  rw [cutAtTop?, Option.map_eq_none_iff, findTop?_eq_none_iff]

/-- A text that is cut at an arrow is cut at the first one at the top level. -/
theorem exists_of_cutAtTop?_arrow {text before after : Text}
    (h : text.cutAtTop? Piece.arrowText = some (before, after)) :
    ∃ front rest, text.pieces = front ++ .arrow :: rest ∧
      Lacks Piece.arrowText zero front ∧ (zero.through front).atTop = true ∧
      Piece.textOf front = before ∧ Piece.textOf rest = after := by
  have hfound : ¬Lacks Piece.arrowText zero text.pieces := by
    rw [← cutAtTop?_eq_none_iff, h]
    exact Option.some_ne_none _
  obtain ⟨front, p, rest, hpieces, hlacks, htop, hsep⟩ := exists_of_not_lacks hfound
  obtain rfl : p = .arrow := by
    cases p with
    | literal text => cases hsep
    | arrow => rfl
    | plain c => cases hsep
  have hcut := cutAtTop?_of_pieces hpieces hlacks htop rfl
  rw [show Piece.text .arrow = Piece.arrowText from rfl, h, Option.some.injEq,
    Prod.mk.injEq] at hcut
  exact ⟨front, rest, hpieces, hlacks, htop, hcut.1.symm, hcut.2.symm⟩

/-! ### Parts -/

def commaBlank : Text := ", ".toList

/-- A text that can stand between commas: it has no blanks at its ends, and no comma divides it. -/
structure IsPart (text : Text) : Prop where
  begins : text.Begins Solid
  finishes : text.Finishes Solid
  undivided : Undivided [','] text

namespace IsPart

variable {text : Text}

theorem ne_nil (h : IsPart text) : text ≠ [] := h.begins.ne_nil

theorem trim_eq (h : IsPart text) : text.trim = text := trim_eq_self h.begins h.finishes

theorem pieces_comma (h : IsPart text) (rest : Text) :
    pieces (text ++ commaBlank ++ rest) =
      text.pieces ++ .plain ',' :: .plain ' ' :: rest.pieces := by
  have hcomma : Inert ',' := ⟨rfl, by decide⟩
  have hblank : Inert ' ' := ⟨rfl, by decide⟩
  rw [List.append_assoc, h.undivided.standalone _ (by simp [commaBlank])]
  exact congrArg (text.pieces ++ ·) (by
    rw [show commaBlank ++ rest = ',' :: ' ' :: rest from rfl, pieces_inert hcomma,
      pieces_inert hblank])

end IsPart

theorem standalone_join {parts : List Text} (h : ∀ part ∈ parts, IsPart part) :
    Standalone (join commaBlank parts) := by
  induction parts with
  | nil => exact standalone_nil
  | cons part more ih =>
    have hpart := h part (by simp)
    have hmore : ∀ p ∈ more, IsPart p := fun p hp => h p (by simp [hp])
    cases more with
    | nil => rw [join_singleton]; exact hpart.undivided.standalone
    | cons next more =>
      rw [join_cons_cons]
      intro rest hrest
      rw [List.append_assoc, hpart.pieces_comma, ih hmore rest hrest, hpart.pieces_comma]
      simp

theorem isBalanced_join {parts : List Text} (h : ∀ part ∈ parts, IsPart part) :
    isBalanced (join commaBlank parts) = true := by
  induction parts with
  | nil => exact isBalanced_nil
  | cons part more ih =>
    have hpart := h part (by simp)
    have hmore : ∀ p ∈ more, IsPart p := fun p hp => h p (by simp [hp])
    cases more with
    | nil => rw [join_singleton]; exact hpart.undivided.balanced
    | cons next more =>
      rw [join_cons_cons, isBalanced, hpart.pieces_comma]
      exact balanced_append hpart.undivided.balanced (ih hmore)

theorem trim_join {parts : List Text} (h : ∀ part ∈ parts, IsPart part) :
    (join commaBlank parts).trim = join commaBlank parts := by
  cases parts with
  | nil => rfl
  | cons first rest =>
    apply trim_eq_self
    · exact (h first (by simp)).begins.join rest
    · exact finishes_join (by simp) fun part hpart => (h part hpart).finishes

theorem cutFrom_join {part : Text} {more : List Text} (hpart : IsPart part)
    (hmore : ∀ p ∈ more, IsPart p) :
    cutFrom [','] zero (join commaBlank (part :: more)).pieces =
      part :: more.map (' ' :: ·) := by
  induction more generalizing part with
  | nil => rw [join_singleton, cutFrom_of_lacks hpart.undivided.lacks, textOf_pieces]; rfl
  | cons next more ih =>
    have hnext := ih (hmore next (by simp)) fun p hp => hmore p (by simp [hp])
    have hblank : Lacks [','] zero [.plain ' '] := ⟨by simp [Piece.separator?], trivial⟩
    have hrest : cutFrom [','] zero (.plain ' ' :: (join commaBlank (next :: more)).pieces) =
        (' ' :: next) :: more.map (' ' :: ·) := by
      have happ := cutFrom_append_of_lacks hblank (join commaBlank (next :: more)).pieces
      rw [show zero.through [.plain ' '] = zero from rfl, hnext] at happ
      simpa [Piece.textOf, Piece.text] using happ
    rw [join_cons_cons, hpart.pieces_comma, cutFrom_append_of_lacks hpart.undivided.lacks,
      hpart.undivided.through, cutFrom_separator rfl rfl]
    rw [show Piece.feed zero (.plain ',') = zero from rfl, hrest, textOf_pieces]
    simp

theorem map_trim_cutTop_join {parts : List Text} (h : ∀ part ∈ parts, IsPart part)
    (hne : parts ≠ []) : ((join commaBlank parts).cutTop [',']).map trim = parts := by
  cases parts with
  | nil => exact absurd rfl hne
  | cons part more =>
    have hpart := h part (by simp)
    have hmore : ∀ p ∈ more, IsPart p := fun p hp => h p (by simp [hp])
    have hid : ∀ p ∈ more, (trim ∘ (' ' :: ·)) p = id p := by
      intro p hp
      rw [Function.comp_apply, trim_blank_cons rfl, (hmore p hp).trim_eq, id]
    rw [cutTop, cutFrom_join hpart hmore, List.map_cons, hpart.trim_eq, List.map_map,
      List.map_congr_left hid, List.map_id]

theorem splitTop_join {parts : List Text} (h : ∀ part ∈ parts, IsPart part) :
    (join commaBlank parts).splitTop [','] = parts := by
  cases parts with
  | nil => simp [splitTop, cutTop, cutFrom, trim, trimStart, trimEnd]
  | cons part more =>
    have hlast : (part :: more).getLast? ≠ some [] := by
      intro hnil
      exact (h [] (List.mem_of_getLast? hnil)).ne_nil rfl
    simp only [splitTop, map_trim_cutTop_join h (List.cons_ne_nil part more)]
    exact if_neg hlast

end ForeignBindings.Text
