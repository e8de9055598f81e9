import ForeignBindings.Proofs.Nesting.Reading
import ForeignBindings.Proofs.Token.Stream

/-! The tokens of a source cover it without loss.  No reader measures a token beyond the end of the
source, every token has a character of its own, and only blanks stand between two tokens; so the
source is its tokens with these gaps before them. -/

namespace ForeignBindings

/-! ### Readers stay inside the source -/

namespace Lexer

theorem blockCommentTail_le (text : Text) : blockCommentTail text ≤ text.length := by
  fun_induction blockCommentTail text with
  | case1 => exact Nat.le_refl 0
  | case2 => simp
  | case3 c rest _ ih => simpa using ih

theorem dottedNameLength_le (text : Text) : dottedNameLength text ≤ text.length := by
  induction text with
  | nil => exact Nat.le_refl 0
  | cons c rest ih =>
    rw [dottedNameLength]
    split
    · simpa using ih
    · simp

/-- An argument list goes up to a parenthesis that closes it. -/
theorem argumentsLength?_closes {depth n : Nat} {pieces : List Piece}
    (h : argumentsLength? depth pieces = some n) : (Piece.textOf pieces)[n]? = some ')' := by
  induction pieces generalizing depth n with
  | nil => cases h
  | cons piece pieces ih =>
    have hlater {m : Nat} (hm : (Piece.textOf pieces)[m]? = some ')') :
        (Piece.textOf (piece :: pieces))[m + piece.text.length]? = some ')' := by
      rw [Piece.textOf_cons, List.getElem?_append_right (Nat.le_add_left _ _),
        Nat.add_sub_cancel, hm]
    have hmark {c : Char} (hpiece : piece = .plain c) : piece.text.length = 1 := by
      rw [hpiece]
      rfl
    rw [argumentsLength?.eq_def] at h
    dsimp only at h
    split at h
    · rename_i hopen
      obtain ⟨m, hm, rfl⟩ := Option.map_eq_some_iff.mp h
      rw [← hmark hopen]
      exact hlater (ih hm)
    · split at h
      · rename_i hclose
        cases depth with
        | zero =>
          obtain rfl := Option.some.inj h
          rw [hclose]
          rfl
        | succ depth =>
          obtain ⟨m, hm, rfl⟩ := Option.map_eq_some_iff.mp h
          rw [← hmark hclose]
          exact hlater (ih hm)
      · obtain ⟨m, hm, rfl⟩ := Option.map_eq_some_iff.mp h
        exact hlater (ih hm)

theorem attribute?_le {rest : Text} {decorator : Decorator} {n : Nat}
    (h : attribute? rest = some (decorator, n)) : n ≤ rest.length := by
  unfold attribute? at h
  dsimp only at h
  split at h
  · split at h
    · rename_i inside hinside
      obtain ⟨m, hm, heq⟩ := Option.map_eq_some_iff.mp h
      have hclosing := argumentsLength?_closes hm
      rw [Text.textOf_pieces] at hclosing
      have hm := (List.getElem?_eq_some_iff.mp hclosing).1
      have hlength := congrArg List.length hinside
      rw [List.length_drop, List.length_cons] at hlength
      obtain ⟨-, rfl⟩ := Prod.mk.inj heq
      omega
    · obtain ⟨-, rfl⟩ := Prod.mk.inj (Option.some.inj h)
      exact dottedNameLength_le rest
  · cases h

theorem read_le {c : Char} {rest : Text} {lexeme : Lexeme} {n : Nat}
    (h : read c rest = (lexeme, n)) : n ≤ rest.length := by
  have htakeWhile (p : Char → Bool) : (rest.takeWhile p).length ≤ rest.length :=
    (List.takeWhile_sublist p).length_le
  obtain rfl : (read c rest).2 = n := congrArg Prod.snd h
  unfold read
  split
  · exact htakeWhile _
  split
  · rename_i hstar
    obtain ⟨more, rfl⟩ := List.head?_eq_some_iff.mp hstar.2
    have := blockCommentTail_le more
    simpa using this
  split
  · split
    · rename_i hattribute
      exact attribute?_le hattribute
    · exact Nat.zero_le _
  split
  · exact stringTail_le c rest
  split
  · split
    · rename_i htail
      exact charTail?_le htail
    · exact htakeWhile _
  split
  · exact htakeWhile _
  split
  · rename_i harrow
    obtain ⟨more, rfl⟩ := List.head?_eq_some_iff.mp harrow.2
    simp
  · exact Nat.zero_le _

/-- A character of its own is one of these. -/
def isMark : Lexeme → Bool
  | .bracket _ | .colon | .assign | .comma | .dot | .other => true
  | _ => false

/-- A word is one of these. -/
def isWord : Lexeme → Bool
  | .number | .external | .identifier => true
  | _ => false

theorem markLexeme_ne {lexeme : Lexeme} (h : isMark lexeme = false) (c : Char) :
    markLexeme c ≠ lexeme := by
  rintro rfl
  revert h
  unfold markLexeme
  repeat' split
  all_goals simp [isMark]

theorem wordLexeme_ne {lexeme : Lexeme} (h : isWord lexeme = false) (word : Text) :
    wordLexeme word ≠ lexeme := by
  rintro rfl
  revert h
  unfold wordLexeme
  repeat' split
  all_goals simp [isWord]

theorem read_ne_endOfFile {c : Char} {rest : Text} {lexeme : Lexeme} {n : Nat}
    (h : read c rest = (lexeme, n)) : lexeme ≠ .endOfFile := by
  obtain rfl : (read c rest).1 = lexeme := congrArg Prod.fst h
  have hmark := @markLexeme_ne .endOfFile rfl
  have hword := @wordLexeme_ne .endOfFile rfl
  unfold read
  repeat' split
  all_goals simp [hmark, hword]
  split <;> simp

/-! ### The tokens from a place on -/

theorem tokensFrom_closed (leading : Text) (p : Position) (text : Text) :
    ∃ body last, tokensFrom leading p text = body ++ [last] ∧ last.lexeme = .endOfFile ∧
      last.text = [] ∧ last.start.offset = p.offset + text.length ∧
      ∀ t ∈ body, t.lexeme ≠ .endOfFile := by
  induction leading, p, text using tokensFrom.induct with
  | case1 leading p =>
    rw [tokensFrom_nil]
    exact ⟨[], _, rfl, rfl, rfl, rfl, by simp⟩
  | case2 leading p c rest hblank ih =>
    rw [tokensFrom_blank hblank]
    obtain ⟨body, last, htokens, hlexeme, htext, hstart, hbody⟩ := ih
    refine ⟨body, last, htokens, hlexeme, htext, ?_, hbody⟩
    rw [hstart, Position.offset_step, List.length_cons]
    omega
  | case3 leading p c rest hblank lexeme n hread text =>
    rename_i ih
    obtain ⟨body, last, htokens, hlexeme, htext, hstart, hbody⟩ := ih
    rw [tokensFrom_read hblank hread]
    refine ⟨_ :: body, last, congrArg _ htokens, hlexeme, htext, ?_, ?_⟩
    · have hn := read_le hread
      rw [hstart, Position.offset_advance]
      simp only [text, List.length_cons, List.length_take, List.length_drop]
      omega
    · rw [List.forall_mem_cons]
      exact ⟨read_ne_endOfFile hread, hbody⟩

theorem sourceOf_tokensFrom (leading : Text) (p : Position) (text : Text) :
    sourceOf (tokensFrom leading p text) = leading ++ text := by
  induction leading, p, text using tokensFrom.induct with
  | case1 leading p =>
    rw [tokensFrom_nil]
    simp [sourceOf]
  | case2 leading p c rest hblank ih =>
    rw [tokensFrom_blank hblank, ih, List.append_assoc, List.singleton_append]
  | case3 leading p c rest hblank lexeme n hread text =>
    rename_i ih
    rw [tokensFrom_read hblank hread]
    change leading ++ text ++ sourceOf (tokensFrom [] (p.advance text) (rest.drop n)) = _
    rw [ih]
    simp [text]

/-- A token starts where the tokens before it and the blanks after them end. -/
theorem offset_of_append {leading text : Text} {p : Position} {before after : List Token}
    {t : Token} (h : tokensFrom leading p text = before ++ t :: after) :
    t.start.offset + leading.length =
      p.offset + (sourceOf before).length + t.leading.length := by
  induction leading, p, text using tokensFrom.induct generalizing before with
  | case1 leading p =>
    rw [tokensFrom_nil] at h
    cases before with
    | nil =>
      obtain ⟨rfl, -⟩ := List.cons.inj h
      rfl
    | cons b before => simp at h
  | case2 leading p c rest hblank ih =>
    rw [tokensFrom_blank hblank] at h
    have := ih h
    rw [Position.offset_step, List.length_append, List.length_singleton] at this
    omega
  | case3 leading p c rest hblank lexeme n hread text =>
    rename_i ih
    rw [tokensFrom_read hblank hread] at h
    cases before with
    | nil =>
      obtain ⟨rfl, -⟩ := List.cons.inj h
      rfl
    | cons b before =>
      obtain ⟨rfl, hrest⟩ := List.cons.inj h
      have := ih hrest
      rw [Position.offset_advance, List.length_nil] at this
      have hlength : (sourceOf (⟨lexeme, leading, text, p⟩ :: before)).length =
          leading.length + text.length + (sourceOf before).length := by
        simp [sourceOf, Nat.add_assoc]
      rw [hlength]
      omega

theorem ordered_tokensFrom (leading : Text) (p : Position) (text : Text) :
    (tokensFrom leading p text).Pairwise
        (fun t u => t.start.offset < u.start.offset ∧ t.stop ≤ u.start.offset) ∧
      ∀ t ∈ tokensFrom leading p text, p.offset ≤ t.start.offset := by
  induction leading, p, text using tokensFrom.induct with
  | case1 leading p =>
    rw [tokensFrom_nil]
    simp
  | case2 leading p c rest hblank ih =>
    rw [tokensFrom_blank hblank]
    refine ⟨ih.1, fun t ht => ?_⟩
    have := ih.2 t ht
    rw [Position.offset_step] at this
    omega
  | case3 leading p c rest hblank lexeme n hread text =>
    rename_i ih
    have hlater : ∀ t ∈ tokensFrom [] (p.advance text) (rest.drop n),
        p.offset + text.length ≤ t.start.offset := by
      intro t ht
      rw [← Position.offset_advance]
      exact ih.2 t ht
    have hpositive : 0 < text.length := Nat.succ_pos _
    rw [tokensFrom_read hblank hread]
    constructor
    · refine List.pairwise_cons.mpr ⟨fun t ht => ?_, ih.1⟩
      have := hlater t ht
      exact ⟨by show p.offset < t.start.offset; omega, this⟩
    · intro t ht
      rcases List.mem_cons.mp ht with rfl | ht
      · exact Nat.le_refl _
      · have := hlater t ht
        omega

theorem isBlank_of_uncovered {leading text : Text} {p : Position} {i : Nat} {c : Char}
    (hc : text[i]? = some c)
    (h : ∀ t ∈ tokensFrom leading p text, p.offset + i < t.start.offset ∨ t.stop ≤ p.offset + i) :
    isBlank c = true := by
  induction leading, p, text using tokensFrom.induct generalizing i with
  | case1 leading p => cases hc
  | case2 leading p d rest hblank ih =>
    rw [tokensFrom_blank hblank] at h
    cases i with
    | zero =>
      obtain rfl : d = c := by simpa using hc
      exact hblank
    | succ i =>
      apply ih (by simpa using hc)
      intro t ht
      rw [Position.offset_step]
      have := h t ht
      omega
  | case3 leading p d rest hblank lexeme n hread text =>
    rename_i ih
    rw [tokensFrom_read hblank hread] at h
    have hn := read_le hread
    have hlength : text.length = 1 + n := by
      simp only [text, List.length_cons, List.length_take]
      omega
    -- The token at `p` covers the first characters, so the index lies behind it.
    have hfirst : p.offset + i < p.offset ∨ p.offset + text.length ≤ p.offset + i :=
      h _ List.mem_cons_self
    obtain ⟨j, rfl⟩ : ∃ j, i = 1 + n + j := ⟨i - (1 + n), by omega⟩
    apply @ih j
    · rw [List.getElem?_drop, ← hc, show 1 + n + j = n + j + 1 by omega, List.getElem?_cons_succ]
    · intro t ht
      rw [Position.offset_advance, hlength]
      have := h t (List.mem_cons_of_mem _ ht)
      omega

end Lexer

/-! ### The tokens of a source -/

/-- Where the last of the tokens stops. -/
def lastStop (tokens : List Token) : Nat := (tokens.getLast?.map Token.stop).getD 0

/-- Tokens are a source, cut up without loss: one end of the file closes them; all others are
parts of the source, one behind the other, of the lengths that the readers measured; and what no
token covers is blank, and is what the tokens record as the gaps before them. -/
structure Covers (source : Text) (tokens : List Token) : Prop where
  closed : ∃ body last, tokens = body ++ [last] ∧ last.lexeme = .endOfFile ∧
    last.start.offset = source.length ∧ last.stop = source.length ∧
    ∀ t ∈ body, t.lexeme ≠ .endOfFile
  nonempty : ∀ t ∈ tokens, t.lexeme ≠ .endOfFile → t.start.offset < t.stop
  bounded : ∀ t ∈ tokens, t.stop ≤ source.length
  ordered : tokens.Pairwise fun t u => t.start.offset < u.start.offset ∧ t.stop ≤ u.start.offset
  text_eq : ∀ t ∈ tokens, t.text = source.extract t.start.offset t.stop
  measured : ∀ t ∈ tokens, t.lexeme ≠ .endOfFile → ∃ c rest n,
    source.drop t.start.offset = c :: rest ∧ Lexer.read c rest = (t.lexeme, n) ∧
      t.stop = t.start.offset + 1 + n
  blank : ∀ i c, source[i]? = some c → (∀ t ∈ tokens, i < t.start.offset ∨ t.stop ≤ i) →
    isBlank c = true
  gap_eq : ∀ before t after, tokens = before ++ t :: after →
    t.leading = source.extract (lastStop before) t.start.offset ∧
      ∀ c ∈ t.leading, isBlank c = true
  whole : sourceOf tokens = source

section Tokenize

variable {source : Text} {before after : List Token} {t : Token}

theorem sourceOf_tokenize (source : Text) : sourceOf (tokenize source) = source :=
  Lexer.sourceOf_tokensFrom [] .start source

theorem start_eq_of_append (h : tokenize source = before ++ t :: after) :
    t.start.offset = (sourceOf before).length + t.leading.length := by
  have := Lexer.offset_of_append h
  simpa [Position.start] using this

theorem source_eq_of_append (h : tokenize source = before ++ t :: after) :
    source = sourceOf before ++ t.leading ++ (t.text ++ sourceOf after) := by
  have hwhole := sourceOf_tokenize source
  rw [h] at hwhole
  simpa [sourceOf] using hwhole.symm

theorem lastStop_of_append (h : tokenize source = before ++ after) :
    lastStop before = (sourceOf before).length := by
  rcases List.eq_nil_or_concat before with rfl | ⟨before, u, rfl⟩
  · rfl
  · rw [List.concat_eq_append] at h ⊢
    rw [List.append_assoc] at h
    have hstart := start_eq_of_append h
    have hlength : (sourceOf (before ++ [u])).length =
        (sourceOf before).length + u.leading.length + u.text.length := by
      simp [sourceOf, Nat.add_assoc]
    rw [hlength, ← hstart, lastStop, List.getLast?_concat]
    rfl

theorem drop_start (h : tokenize source = before ++ t :: after) :
    source.drop t.start.offset = t.text ++ sourceOf after := by
  have hlength : t.start.offset = (sourceOf before ++ t.leading).length := by
    rw [start_eq_of_append h, List.length_append]
  rw [hlength, source_eq_of_append h, List.drop_left]

/-- A token that is not the end of the file is what a reader makes of the text from its start. -/
theorem measured_of_append (h : tokenize source = before ++ t :: after)
    (ht : t.lexeme ≠ .endOfFile) : ∃ c rest n, source.drop t.start.offset = c :: rest ∧
      Lexer.read c rest = (t.lexeme, n) ∧ t.stop = t.start.offset + 1 + n := by
  obtain ⟨front, c, rest, n, hsource, -, hread, htext, hstart, -⟩ := Lexer.tokensFrom_eq_append h ht
  have hoffset : t.start.offset = front.length := by
    rw [hstart, Position.offset_advance]
    exact Nat.zero_add _
  refine ⟨c, rest, n, ?_, hread, ?_⟩
  · rw [hoffset, hsource, List.drop_left]
  · have hn := Lexer.read_le hread
    rw [Token.stop, htext, List.length_cons, List.length_take]
    omega

end Tokenize

/-- The tokens of a source are the source, cut up without loss. -/
theorem covers_tokenize (source : Text) : Covers source (tokenize source) where
  closed := by
    obtain ⟨body, last, htokens, hlexeme, htext, hstart, hbody⟩ :=
      Lexer.tokensFrom_closed [] .start source
    have hstart' : last.start.offset = source.length := hstart.trans (Nat.zero_add _)
    refine ⟨body, last, htokens, hlexeme, hstart', ?_, hbody⟩
    rw [Token.stop, hstart', htext]
    rfl
  nonempty := by
    intro t ht hlexeme
    obtain ⟨before, after, h⟩ := List.append_of_mem ht
    obtain ⟨c, rest, n, -, -, hstop⟩ := measured_of_append h hlexeme
    omega
  bounded := by
    intro t ht
    obtain ⟨before, after, h⟩ := List.append_of_mem ht
    have hlength := congrArg List.length (source_eq_of_append h)
    have hstart := start_eq_of_append h
    simp only [List.length_append] at hlength
    rw [Token.stop]
    omega
  ordered := (Lexer.ordered_tokensFrom [] .start source).1
  text_eq := by
    intro t ht
    obtain ⟨before, after, h⟩ := List.append_of_mem ht
    rw [List.extract, drop_start h, Token.stop, Nat.add_sub_cancel_left, List.take_left]
  measured := by
    intro t ht hlexeme
    obtain ⟨before, after, h⟩ := List.append_of_mem ht
    exact measured_of_append h hlexeme
  blank := by
    intro i c hc h
    refine @Lexer.isBlank_of_uncovered [] source .start i c hc fun t ht => ?_
    show 0 + i < t.start.offset ∨ t.stop ≤ 0 + i
    rw [Nat.zero_add]
    exact h t ht
  gap_eq := by
    intro before t after h
    constructor
    · rw [List.extract, lastStop_of_append h, start_eq_of_append h, Nat.add_sub_cancel_left,
        source_eq_of_append h, List.append_assoc, List.drop_left, List.take_left]
    · have ht : t ∈ tokenize source := by simp [h]
      exact @Lexer.isBlank_of_mem_leading [] source .start (by simp) t ht
  whole := sourceOf_tokenize source

end ForeignBindings
