import ForeignBindings.Proofs.Token.Separator

/-! Texts that hold no literals, attributes and comments.  Such a text has the same tokens before a
blank as it has alone, and its tokens change a depth as its pieces do. -/

namespace ForeignBindings

open Text Depth

/-- A character that can begin no literal, no attribute and no comment. -/
def Bare (c : Char) : Prop := isQuote c = false ∧ c ≠ '@' ∧ c ≠ '/'

instance : DecidablePred Bare := fun c =>
  inferInstanceAs (Decidable (isQuote c = false ∧ c ≠ '@' ∧ c ≠ '/'))

theorem literalsFrom_eq_nil {ps : List Piece} (h : ∀ l, .literal l ∉ ps) (index : Nat) :
    literalsFrom index ps = [] := by
  induction ps generalizing index with
  | nil => rfl
  | cons p ps ih =>
    have hps : ∀ l, .literal l ∉ ps := fun l hl => h l (List.mem_cons_of_mem _ hl)
    cases p with
    | literal l => exact absurd List.mem_cons_self (h l)
    | arrow => exact ih hps _
    | plain c => exact ih hps _

theorem takeWhile_append_blank {p : Char → Bool} (hp : p ' ' = false) (front more : Text) :
    (front ++ ' ' :: more).takeWhile p = front.takeWhile p := by
  induction front with
  | nil => simp [hp]
  | cons c front ih => simp [List.takeWhile_cons, ih]

namespace Lexer

variable {text : Text}

theorem read_bare {c : Char} (h : Bare c) (rest : Text) :
    read c rest =
      if isIdentifierChar c then
        (wordLexeme (c :: rest.takeWhile isIdentifierChar),
          (rest.takeWhile isIdentifierChar).length)
      else if c = '=' ∧ rest.head? = some '>' then (.fatArrow, 1)
      else (markLexeme c, 0) := by
  obtain ⟨hquote, hat, hslash⟩ := h
  simp only [isQuote, Bool.or_eq_false_iff, beq_eq_false_iff_ne] at hquote
  rw [read, if_neg fun hc => hslash hc.1, if_neg fun hc => hslash hc.1, if_neg hat,
    if_neg (not_or.mpr ⟨hquote.1.1, hquote.2⟩), if_neg hquote.1.2]

theorem read_bare_append {c : Char} (h : Bare c) (front more : Text) :
    read c (front ++ ' ' :: more) = read c front := by
  have hhead : (front ++ ' ' :: more).head? = some '>' ↔ front.head? = some '>' := by
    cases front <;> simp
  rw [read_bare h, read_bare h, takeWhile_append_blank (by decide)]
  simp only [hhead]

theorem read_ne_comment {c : Char} {rest : Text} {lexeme : Lexeme} {n : Nat} (h : Bare c)
    (hread : read c rest = (lexeme, n)) : lexeme ≠ .comment := by
  rintro rfl
  rw [read_bare h] at hread
  split at hread
  · exact wordLexeme_ne rfl _ (congrArg Prod.fst hread)
  split at hread
  · cases hread
  · exact markLexeme_ne rfl c (congrArg Prod.fst hread)

/-- Before a blank, the text has the tokens that it has alone, but for the end of the file. -/
theorem tokensFrom_bare (h : ∀ c ∈ text, Bare c) (leading : Text) (p : Position) :
    ∃ body blanks,
      tokensFrom leading p text = body ++ [⟨.endOfFile, blanks, [], p.advance text⟩] ∧
      ∀ more, tokensFrom leading p (text ++ ' ' :: more) =
        body ++ tokensFrom (blanks ++ [' ']) ((p.advance text).step ' ') more := by
  induction leading, p, text using tokensFrom.induct with
  | case1 leading p =>
    refine ⟨[], leading, by rw [tokensFrom_nil]; rfl, fun more => ?_⟩
    rw [List.nil_append, tokensFrom_blank (by decide)]
    rfl
  | case2 leading p c rest hblank ih =>
    obtain ⟨body, blanks, htokens, happend⟩ := ih fun d hd => h d (List.mem_cons_of_mem _ hd)
    refine ⟨body, blanks, by rw [tokensFrom_blank hblank, htokens]; rfl, fun more => ?_⟩
    rw [List.cons_append, tokensFrom_blank hblank, happend]
    rfl
  | case3 leading p c rest hblank lexeme n hread text =>
    rename_i ih
    obtain ⟨body, blanks, htokens, happend⟩ :=
      ih fun d hd => h d (List.mem_cons_of_mem _ (List.mem_of_mem_drop hd))
    have hn := read_le hread
    have hplace : (p.advance text).advance (rest.drop n) = p.advance (c :: rest) := by
      rw [← Position.advance_append, List.cons_append, List.take_append_drop]
    rw [hplace] at htokens happend
    refine ⟨⟨lexeme, leading, text, p⟩ :: body, blanks, ?_, fun more => ?_⟩
    · rw [tokensFrom_read hblank hread]
      exact congrArg _ htokens
    · have hread' : read c (rest ++ ' ' :: more) = (lexeme, n) := by
        rw [read_bare_append (h c List.mem_cons_self), hread]
      rw [List.cons_append, tokensFrom_read hblank hread']
      simp only [List.take_append_of_le_length hn, List.drop_append_of_le_length hn]
      exact congrArg _ (happend more)

theorem isComment_of_bare (h : ∀ c ∈ text, Bare c) (leading : Text) (p : Position) :
    ∀ t ∈ tokensFrom leading p text, t.isComment = false := by
  induction leading, p, text using tokensFrom.induct with
  | case1 leading p =>
    rw [tokensFrom_nil]
    simp [Token.isComment]
  | case2 leading p c rest hblank ih =>
    rw [tokensFrom_blank hblank]
    exact ih fun d hd => h d (List.mem_cons_of_mem _ hd)
  | case3 leading p c rest hblank lexeme n hread text =>
    rename_i ih
    rw [tokensFrom_read hblank hread, List.forall_mem_cons]
    refine ⟨beq_eq_false_iff_ne.mpr (read_ne_comment (h c List.mem_cons_self) hread), ?_⟩
    exact ih fun d hd => h d (List.mem_cons_of_mem _ (List.mem_of_mem_drop hd))

theorem foldl_feed_of_bare (h : ∀ c ∈ text, Bare c) (leading : Text) (p : Position) (d : Depth) :
    (tokensFrom leading p text).foldl Token.feed d = d.through text.pieces := by
  induction leading, p, text using tokensFrom.induct generalizing d with
  | case1 leading p =>
    rw [tokensFrom_nil, pieces_nil]
    rfl
  | case2 leading p c rest hblank ih =>
    have hinert := inert_of_isBlank hblank
    have hsilent := silent_of_isBlank hblank
    rw [tokensFrom_blank hblank, pieces_inert hinert, through_cons, hsilent.feed]
    exact ih (fun d hd => h d (List.mem_cons_of_mem _ hd)) d
  | case3 leading p c rest hblank lexeme n hread text =>
    rename_i ih
    obtain ⟨-, hat, hslash⟩ := h c List.mem_cons_self
    rw [tokensFrom_read hblank hread, List.foldl_cons,
      ih fun d hd => h d (List.mem_cons_of_mem _ (List.mem_of_mem_drop hd))]
    cases cut_read hread hat hslash with
    | aligned hpieces _ hreads =>
      rw [hpieces, through_append, hreads.through ⟨lexeme, leading, text, p⟩ rfl]
      rfl
    | @overrun _ _ literal hpieces =>
      refine absurd ?_ (literal_not_mem_pieces (fun d hd => (h d hd).1) literal)
      rw [hpieces]
      simp

/-- The equals signs that the tokens have outside all brackets are those of the pieces. -/
theorem not_separates_of_bare {d : Depth} (h : ∀ c ∈ text, Bare c) {s : Separator}
    (hlacks : Lacks s.text d text.pieces) (leading : Text) (p : Position) (offset : Nat) :
    ¬Separates s offset d (tokensFrom leading p text) := by
  have hnone := literalsFrom_eq_nil (literal_not_mem_pieces fun c hc => (h c hc).1) p.offset
  rw [← mem_topLevelFrom_iff_separates s (fun hat => (h _ hat).2.1 rfl)
    (fun hslash => (h _ hslash).2.2 rfl)]
  · exact (lacks_iff p.offset).mp hlacks offset
  · rintro j - ⟨span, hspan, -⟩
    rw [hnone] at hspan
    exact List.not_mem_nil hspan

end Lexer

end ForeignBindings
