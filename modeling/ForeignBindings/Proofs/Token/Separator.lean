import ForeignBindings.Proofs.Token.Piece

/-! Separators at the top level.  The commas, arrows and equals signs that the tokens of a text have
outside all brackets are those that its pieces have there, up to the first place at which a literal
of the pieces runs over the end of a word. -/

namespace ForeignBindings

open Text

/-- Where the literals among pieces begin and where they end. -/
def literalsFrom (index : Nat) : List Piece → List (Nat × Nat)
  | [] => []
  | .literal l :: rest => (index, index + l.length) :: literalsFrom (index + l.length) rest
  | p :: rest => literalsFrom (index + p.text.length) rest

theorem literalsFrom_append (index : Nat) (ps qs : List Piece) :
    literalsFrom index (ps ++ qs) =
      literalsFrom index ps ++ literalsFrom (index + (Piece.textOf ps).length) qs := by
  induction ps generalizing index with
  | nil => rfl
  | cons p ps ih =>
    rw [Piece.textOf_cons, List.length_append, ← Nat.add_assoc]
    cases p with
    | literal l => exact congrArg ((index, index + l.length) :: ·) (ih _)
    | arrow => exact ih _
    | plain c => exact ih _

/-- A literal of the pieces begins at the offset, in a token that ends inside the literal. -/
def Overruns (index : Nat) (ps : List Piece) (tokens : List Token) (offset : Nat) : Prop :=
  ∃ span ∈ literalsFrom index ps, span.1 = offset ∧
    ∃ t ∈ tokens, t.start.offset ≤ offset ∧ offset < t.stop ∧ t.stop < span.2

instance (index : Nat) (ps : List Piece) (tokens : List Token) :
    DecidablePred (Overruns index ps tokens) := fun offset =>
  inferInstanceAs (Decidable (∃ span ∈ literalsFrom index ps, span.1 = offset ∧
    ∃ t ∈ tokens, t.start.offset ≤ offset ∧ offset < t.stop ∧ t.stop < span.2))

/-- A token of the separator starts at the offset, outside all brackets if the tokens begin at the
depth. -/
def Separates (s : Separator) (offset : Nat) (d : Depth) (tokens : List Token) : Prop :=
  ∃ before t after, tokens = before ++ t :: after ∧ t.lexeme = s.lexeme ∧
    t.start.offset = offset ∧ (before.foldl Token.feed d).atTop = true

theorem separates_cons {s : Separator} {offset : Nat} {d : Depth} {t : Token}
    {tokens : List Token} :
    Separates s offset d (t :: tokens) ↔
      (t.lexeme = s.lexeme ∧ offset = t.start.offset ∧ d.atTop = true) ∨
        Separates s offset (t.feed d) tokens := by
  constructor
  · rintro ⟨before, u, after, htokens, hlexeme, hstart, htop⟩
    cases before with
    | nil =>
      obtain ⟨rfl, -⟩ := List.cons.inj htokens
      exact .inl ⟨hlexeme, hstart.symm, htop⟩
    | cons b before =>
      obtain ⟨rfl, hrest⟩ := List.cons.inj htokens
      exact .inr ⟨before, u, after, hrest, hlexeme, hstart, htop⟩
  · rintro (⟨hlexeme, hstart, htop⟩ | ⟨before, u, after, rfl, hlexeme, hstart, htop⟩)
    · exact ⟨[], t, tokens, rfl, hlexeme, hstart.symm, htop⟩
    · exact ⟨t :: before, u, after, rfl, hlexeme, hstart, htop⟩

theorem Separates.exists_start {s : Separator} {offset : Nat} {d : Depth} {tokens : List Token}
    (h : Separates s offset d tokens) : ∃ t ∈ tokens, t.start.offset = offset := by
  obtain ⟨before, t, after, rfl, -, hstart, -⟩ := h
  exact ⟨t, by simp, hstart⟩

/-- What runs over behind some pieces and tokens runs over among all. -/
theorem Overruns.append {index index' offset : Nat} {ps qs : List Piece} {more : List Token}
    (h : Overruns index' qs more offset) (hindex : index' = index + (Piece.textOf ps).length)
    (tokens : List Token) : Overruns index (ps ++ qs) (tokens ++ more) offset := by
  obtain ⟨span, hspan, hoffset, t, ht, hplace⟩ := h
  rw [hindex] at hspan
  refine ⟨span, ?_, hoffset, t, List.mem_append_right _ ht, hplace⟩
  rw [literalsFrom_append]
  exact List.mem_append_right _ hspan

/-- Nothing separates before the end of a literal in a word. -/
theorem not_mem_topLevelFrom_literal {ps rest : List Piece} {literal : Text} {index offset : Nat}
    (hps : ∀ p ∈ ps, p.Silent)
    (hoffset : offset < index + (Piece.textOf ps).length + literal.length) (s : Separator)
    (d : Depth) : (offset, s.text) ∉ topLevelFrom index d (ps ++ .literal literal :: rest) := by
  have hsilent : Lexeme.identifier.isSilent = true := rfl
  rw [topLevelFrom_append, List.mem_append, mem_topLevelFrom_cons]
  rintro (hmem | ⟨hnone, -⟩ | hmem)
  · rw [(reads_silent hsilent hps).separates] at hmem
    exact ne_of_isSilent hsilent s hmem.1
  · cases hnone
  · have hbehind := le_of_mem_topLevelFrom hmem
    rw [Piece.text] at hbehind
    omega

theorem silent_of_isBlank {c : Char} (h : isBlank c = true) : (Piece.plain c).Silent :=
  silent_plain (bracket?_eq_none h (by decide)) (ne_of_isBlank h rfl) (ne_of_isBlank h rfl)

namespace Lexer

theorem le_of_separates {s : Separator} {offset : Nat} {d : Depth} {leading text : Text}
    {p : Position} (h : Separates s offset d (tokensFrom leading p text)) : p.offset ≤ offset := by
  obtain ⟨t, ht, rfl⟩ := h.exists_start
  exact (ordered_tokensFrom leading p text).2 t ht

/-- Before anything has run over, the pieces and the tokens of a text have the same separators. -/
theorem mem_topLevelFrom_iff_separates (s : Separator) {offset : Nat} {leading text : Text}
    {p : Position} {d : Depth} (hat : '@' ∉ text) (hslash : '/' ∉ text)
    (hclear : ∀ j < offset, ¬Overruns p.offset text.pieces (tokensFrom leading p text) j) :
    (offset, s.text) ∈ topLevelFrom p.offset d text.pieces ↔
      Separates s offset d (tokensFrom leading p text) := by
  induction leading, p, text using tokensFrom.induct generalizing d with
  | case1 leading p =>
    rw [tokensFrom_nil, pieces_nil, separates_cons]
    simp only [topLevelFrom, List.not_mem_nil, false_iff, not_or]
    constructor
    · intro h
      exact ne_of_isSilent rfl s h.1
    · intro h
      obtain ⟨t, ht, -⟩ := h.exists_start
      exact List.not_mem_nil ht
  | case2 leading p c rest hblank ih =>
    have hinert := inert_of_isBlank hblank
    have hsilent := silent_of_isBlank hblank
    simp only [List.mem_cons, not_or] at hat hslash
    rw [tokensFrom_blank hblank, pieces_inert hinert] at hclear ⊢
    rw [mem_topLevelFrom_cons, hsilent.feed]
    have hoffset : p.offset + (Piece.plain c).text.length = (p.step c).offset :=
      (Position.offset_step p c).symm
    rw [hoffset, ih hat.2 hslash.2]
    · simp [hsilent.separator s]
    · intro j hj hover
      exact hclear j hj (@Overruns.append _ _ _ [.plain c] _ _ hover hoffset.symm [])
  | case3 leading p c rest hblank lexeme n hread text =>
    rename_i ih
    simp only [List.mem_cons, not_or] at hat hslash
    rw [tokensFrom_read hblank hread] at hclear ⊢
    have hlength : text.length = n + 1 := by
      have hn := read_le hread
      simp only [text, List.length_cons, List.length_take]
      omega
    have hadvance : (p.advance text).offset = p.offset + (n + 1) := by
      rw [Position.offset_advance, hlength]
    rw [separates_cons]
    cases cut_read hread (Ne.symm hat.1) (Ne.symm hslash.1) with
    | @aligned ps hpieces htext hreads =>
      have hps : (Piece.textOf ps).length = n + 1 := by
        rw [htext]
        exact hlength
      have hclear' : ∀ j < offset, ¬Overruns (p.advance text).offset (pieces (rest.drop n))
          (tokensFrom [] (p.advance text) (rest.drop n)) j := by
        intro j hj hover
        apply hclear j hj
        rw [hpieces]
        exact hover.append (by rw [hadvance, hps]) [_]
      have hrest := ih (d := d.through ps) (fun h => hat.2 (List.mem_of_mem_drop h))
        (fun h => hslash.2 (List.mem_of_mem_drop h)) hclear'
      rw [hadvance, ← hps] at hrest
      rw [hpieces, topLevelFrom_append, List.mem_append, hreads.separates]
      refine or_congr Iff.rfl (hrest.trans ?_)
      rw [hreads.through ⟨lexeme, leading, text, p⟩ rfl]
    | @overrun ps rest' literal hpieces hps hl hinside hbeyond =>
      let start := p.offset + (Piece.textOf ps).length
      have hliteral :
          (start, start + literal.length) ∈ literalsFrom p.offset (pieces (c :: rest)) := by
        rw [hpieces, literalsFrom_append]
        exact List.mem_append_right _ List.mem_cons_self
      -- The literal begins at or behind the offset, so nothing at the offset separates.
      have hle : offset ≤ start := by
        apply Nat.le_of_not_lt
        intro hlt
        refine hclear _ hlt ⟨_, hliteral, rfl, _, List.mem_cons_self, Nat.le_add_right _ _, ?_, ?_⟩
        · show start < p.offset + text.length
          omega
        · show p.offset + text.length < start + literal.length
          omega
      constructor
      · intro hmem
        rw [hpieces] at hmem
        exact absurd hmem (not_mem_topLevelFrom_literal hps (by omega) s d)
      · rintro (⟨hlexeme, -⟩ | hrest)
        · exact absurd hlexeme (ne_of_isSilent hl s)
        · have hbehind := le_of_separates hrest
          rw [hadvance] at hbehind
          omega

end Lexer

/-- In a text without attributes and comments, the commas, arrows and equals signs that the nesting
scan has at the top level are those that the tokens have outside all brackets, up to the first
place at which a literal of the nesting scan begins in a word and ends behind it.  Nothing is said
of what stands behind that place. -/
theorem mem_topLevel_iff_separates (s : Separator) {text : Text} {offset : Nat} (hat : '@' ∉ text)
    (hslash : '/' ∉ text) (hclear : ∀ j < offset, ¬Overruns 0 text.pieces (tokenize text) j) :
    (offset, s.text) ∈ text.topLevel ↔
      ∃ before t after, tokenize text = before ++ t :: after ∧ t.lexeme = s.lexeme ∧
        t.start.offset = offset ∧ (before.foldl Token.feed .zero).atTop = true :=
  @Lexer.mem_topLevelFrom_iff_separates s offset [] text .start .zero hat hslash hclear

/-- The lexer and the nesting scan both find the comma behind primes of words and of a type
variable. -/
theorem separates_behind_primes :
    (15, Separator.comma.text) ∈ Text.topLevel "(t', 'a) => u\x27\x27, 'b'".toList ∧
      ∃ before t after, tokenize "(t', 'a) => u\x27\x27, 'b'".toList = before ++ t :: after ∧
        t.lexeme = .comma ∧ t.start.offset = 15 ∧
        (before.foldl Token.feed .zero).atTop = true := by
  have hmem : (15, Separator.comma.text) ∈ Text.topLevel "(t', 'a) => u\x27\x27, 'b'".toList := by
    decide +kernel
  exact ⟨hmem, (mem_topLevel_iff_separates .comma (by decide) (by decide) (by decide +kernel)).mp
    hmem⟩

/-- The literal that a prime at the end of a word opens hides the comma behind it from the nesting
scan. -/
theorem overrun_hides_comma :
    '@' ∉ "t','b".toList ∧ '/' ∉ "t','b".toList ∧
      ¬((2, Separator.comma.text) ∈ Text.topLevel "t','b".toList ↔
        ∃ before t after, tokenize "t','b".toList = before ++ t :: after ∧ t.lexeme = .comma ∧
          t.start.offset = 2 ∧ (before.foldl Token.feed .zero).atTop = true) := by
  refine ⟨by decide, by decide, fun h => ?_⟩
  have hscan : (2, Separator.comma.text) ∉ Text.topLevel "t','b".toList := by decide +kernel
  have htokens : tokenize "t','b".toList =
      [⟨.identifier, [], "t'".toList, ⟨0, 1, 1⟩⟩] ++ ⟨.comma, [], [','], ⟨2, 1, 3⟩⟩ ::
        [⟨.typeVariable, [], "'b".toList, ⟨3, 1, 4⟩⟩, ⟨.endOfFile, [], [], ⟨5, 1, 6⟩⟩] := by
    decide +kernel
  exact hscan (h.mpr ⟨_, _, _, htokens, rfl, rfl, rfl⟩)

end ForeignBindings
