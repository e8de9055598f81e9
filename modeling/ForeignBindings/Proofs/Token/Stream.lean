import Mathlib.Data.List.Induction
import Mathlib.Data.List.Pairwise
import ForeignBindings.Proofs.Text.Ends
import ForeignBindings.Token.Lexer

/-! The tokens of a source.  Each token starts behind the one before it, so its line and its column
tell it from all others; and the tokens after it depend on nothing but the text after it. -/

namespace ForeignBindings

namespace Position

def Before (p q : Position) : Prop := p.line < q.line ∨ p.line = q.line ∧ p.column < q.column

theorem Before.trans {p q r : Position} (hpq : p.Before q) (hqr : q.Before r) : p.Before r := by
  unfold Before at *
  omega

theorem Before.irrefl (p : Position) : ¬p.Before p := by
  unfold Before
  omega

theorem before_step (p : Position) (c : Char) : p.Before (p.step c) := by
  unfold Before step
  by_cases hc : c = '\n'
  · rw [if_pos hc]
    left
    show p.line < p.line + 1
    omega
  · rw [if_neg hc]
    right
    show p.line = p.line ∧ p.column < p.column + 1
    omega

theorem advance_append (p : Position) (text more : Text) :
    p.advance (text ++ more) = (p.advance text).advance more :=
  List.foldl_append

theorem before_advance (p : Position) {text : Text} (h : text ≠ []) :
    p.Before (p.advance text) := by
  induction text generalizing p with
  | nil => exact absurd rfl h
  | cons c text ih =>
    cases text with
    | nil => exact p.before_step c
    | cons d text => exact (p.before_step c).trans (ih (p.step c) (by simp))

theorem offset_step (p : Position) (c : Char) : (p.step c).offset = p.offset + 1 := by
  unfold step
  split <;> rfl

theorem offset_advance (p : Position) (text : Text) :
    (p.advance text).offset = p.offset + text.length := by
  induction text generalizing p with
  | nil => rfl
  | cons c text ih =>
    change ((p.step c).advance text).offset = _
    rw [ih, offset_step, List.length_cons]
    omega

theorem advance_newline (p : Position) (text : Text) :
    (p.advance (text ++ ['\n'])).line = p.line + text.count '\n' + 1 ∧
      (p.advance (text ++ ['\n'])).column = 1 := by
  induction text generalizing p with
  | nil => simp [advance, step]
  | cons c text ih =>
    obtain ⟨hline, hcolumn⟩ := ih (p.step c)
    refine ⟨?_, hcolumn⟩
    change ((p.step c).advance (text ++ ['\n'])).line = _
    rw [hline, List.count_cons, step]
    by_cases hc : c = '\n'
    · simp only [hc, if_true, beq_self_eq_true]
      omega
    · simp only [if_neg hc, beq_iff_eq]
      omega

/-- The line counts the line feeds before a place, the column the characters since the last one. -/
theorem advance_start (text : Text) :
    (start.advance text).line = text.count '\n' + 1 ∧
      (start.advance text).column = (text.reverse.takeWhile (· != '\n')).length + 1 := by
  induction text using List.reverseRecOn with
  | nil => exact ⟨rfl, rfl⟩
  | append_singleton text c ih =>
    rw [advance_append, List.count_append, List.reverse_append]
    change ((start.advance text).step c).line = _ ∧ ((start.advance text).step c).column = _
    rw [step]
    by_cases hc : c = '\n'
    · simp [hc, ih.1]
    · simp [hc, ih.1, ih.2]

end Position

namespace Lexer

/-! ### What a reading gives -/

theorem tokensFrom_nil (leading : Text) (p : Position) :
    tokensFrom leading p [] = [⟨.endOfFile, leading, [], p⟩] := by
  rw [tokensFrom]

theorem tokensFrom_blank {c : Char} (h : isBlank c = true) (leading : Text) (p : Position)
    (rest : Text) :
    tokensFrom leading p (c :: rest) = tokensFrom (leading ++ [c]) (p.step c) rest := by
  rw [tokensFrom, if_pos h]

theorem tokensFrom_read {c : Char} {rest : Text} {lexeme : Lexeme} {n : Nat}
    (h : ¬isBlank c = true) (hread : read c rest = (lexeme, n)) (leading : Text) (p : Position) :
    tokensFrom leading p (c :: rest) =
      ⟨lexeme, leading, c :: rest.take n, p⟩ ::
        tokensFrom [] (p.advance (c :: rest.take n)) (rest.drop n) := by
  rw [tokensFrom, if_neg h, hread]

/-! ### Where the tokens start -/

/-- A token of a text splits the text: blanks and tokens stand before it, and the tokens after it
are those of the text after it. -/
theorem tokensFrom_eq_append {leading text : Text} {p : Position} {before after : List Token}
    {t : Token} (h : tokensFrom leading p text = before ++ t :: after)
    (ht : t.lexeme ≠ .endOfFile) :
    ∃ front c rest n, text = front ++ c :: rest ∧ leading ++ front = sourceOf before ++ t.leading ∧
      read c rest = (t.lexeme, n) ∧ t.text = c :: rest.take n ∧ t.start = p.advance front ∧
      after = tokensFrom [] (t.start.advance t.text) (rest.drop n) := by
  induction leading, p, text using tokensFrom.induct generalizing before with
  | case1 leading p =>
    rw [tokensFrom_nil] at h
    obtain ⟨rfl, rfl, -⟩ : before = [] ∧ t = ⟨.endOfFile, leading, [], p⟩ ∧ after = [] := by
      cases before with
      | nil => simpa using h.symm
      | cons b before => simp at h
    exact absurd rfl ht
  | case2 leading p c rest hblank ih =>
    rw [tokensFrom_blank hblank] at h
    obtain ⟨front, d, more, n, rfl, hfront, hread, htext, hstart, hafter⟩ := ih h
    refine ⟨c :: front, d, more, n, rfl, ?_, hread, htext, hstart, hafter⟩
    rw [← hfront]
    simp
  | case3 leading p c rest hblank lexeme n hread text =>
    rename_i ih
    rw [tokensFrom_read hblank hread] at h
    cases before with
    | nil =>
      obtain ⟨rfl, rfl⟩ := List.cons.inj h
      exact ⟨[], c, rest, n, rfl, by simp [sourceOf], hread, rfl, rfl, rfl⟩
    | cons b before =>
      obtain ⟨rfl, hrest⟩ := List.cons.inj h
      obtain ⟨front, d, more, m, hdrop, hfront, hread', htext, hstart, hafter⟩ := ih hrest
      refine ⟨(c :: rest.take n) ++ front, d, more, m, ?_, ?_, hread', htext, ?_, hafter⟩
      · rw [List.append_assoc, ← hdrop]
        simp
      · rw [List.nil_append] at hfront
        simp [sourceOf, hfront]
      · rw [hstart, Position.advance_append]

/-- Tokens start one behind the other, and none before the place where the reading began. -/
theorem pairwise_tokensFrom (leading : Text) (p : Position) (text : Text) :
    (tokensFrom leading p text).Pairwise (fun t u => t.start.Before u.start) ∧
      ∀ t ∈ tokensFrom leading p text, t.start = p ∨ p.Before t.start := by
  induction leading, p, text using tokensFrom.induct with
  | case1 leading p =>
    rw [tokensFrom_nil]
    simp
  | case2 leading p c rest hblank ih =>
    rw [tokensFrom_blank hblank]
    constructor
    · exact ih.1
    · intro t ht
      right
      rcases ih.2 t ht with heq | hbefore
      · rw [heq]
        exact p.before_step c
      · exact (p.before_step c).trans hbefore
  | case3 leading p c rest hblank lexeme n hread text =>
    rename_i ih
    have hlater : ∀ t ∈ tokensFrom [] (p.advance (c :: rest.take n)) (rest.drop n),
        p.Before t.start := by
      intro t ht
      have hp : p.Before (p.advance (c :: rest.take n)) := p.before_advance (by simp)
      rcases ih.2 t ht with heq | hbefore
      · rwa [heq]
      · exact hp.trans hbefore
    rw [tokensFrom_read hblank hread]
    constructor
    · exact List.pairwise_cons.mpr ⟨hlater, ih.1⟩
    · intro t ht
      rcases List.mem_cons.mp ht with rfl | ht
      · exact .inl rfl
      · exact .inr (hlater t ht)

def unplaced (t : Token) : Token := { t with start := .start }

/-- But for their places, the tokens of a text do not depend on where the text stands. -/
theorem map_unplaced_tokensFrom (leading text : Text) (p q : Position) :
    (tokensFrom leading p text).map unplaced = (tokensFrom leading q text).map unplaced := by
  induction leading, p, text using tokensFrom.induct generalizing q with
  | case1 leading p =>
    rw [tokensFrom_nil, tokensFrom_nil]
    rfl
  | case2 leading p c rest hblank ih =>
    rw [tokensFrom_blank hblank, tokensFrom_blank hblank]
    exact ih (q.step c)
  | case3 leading p c rest hblank lexeme n hread text =>
    rename_i ih
    rw [tokensFrom_read hblank hread, tokensFrom_read hblank hread, List.map_cons, List.map_cons,
      ih (q.advance text)]
    rfl

theorem isBlank_of_mem_leading {leading text : Text} {p : Position}
    (hleading : ∀ c ∈ leading, isBlank c = true) :
    ∀ t ∈ tokensFrom leading p text, ∀ c ∈ t.leading, isBlank c = true := by
  induction leading, p, text using tokensFrom.induct with
  | case1 leading p =>
    rw [tokensFrom_nil]
    simpa using hleading
  | case2 leading p c rest hblank ih =>
    rw [tokensFrom_blank hblank]
    apply ih
    intro d hd
    rcases List.mem_append.mp hd with hd | hd
    · exact hleading d hd
    · rwa [List.mem_singleton.mp hd]
  | case3 leading p c rest hblank lexeme n hread text =>
    rename_i ih
    rw [tokensFrom_read hblank hread]
    intro t ht
    rcases List.mem_cons.mp ht with rfl | ht
    · exact hleading
    · exact ih (by simp) t ht

/-! ### One after the other -/

theorem tokensFrom_blanks {blanks : Text} (h : ∀ c ∈ blanks, isBlank c = true) (leading more : Text)
    (p : Position) :
    tokensFrom leading p (blanks ++ more) =
      tokensFrom (leading ++ blanks) (p.advance blanks) more := by
  induction blanks generalizing leading p with
  | nil =>
    rw [List.append_nil]
    rfl
  | cons c blanks ih =>
    obtain ⟨hc, hblanks⟩ := List.forall_mem_cons.mp h
    rw [List.cons_append, tokensFrom_blank hc, ih hblanks, List.append_assoc]
    rfl

theorem tokensFrom_token {c : Char} {rest more : Text} {lexeme : Lexeme}
    (hsolid : Text.Solid c) (hread : read c (rest ++ more) = (lexeme, rest.length))
    (leading : Text) (p : Position) :
    tokensFrom leading p (c :: rest ++ more) =
      ⟨lexeme, leading, c :: rest, p⟩ :: tokensFrom [] (p.advance (c :: rest)) more := by
  have hblank : isBlank c = false := hsolid
  rw [List.cons_append, tokensFrom_read (by simp [hblank]) hread]
  simp only [List.take_left, List.drop_left]

/-! ### Words -/

theorem isWordChar_of_isIdentifierStart {c : Char} (h : isIdentifierStart c = true) :
    isWordChar c = true := by
  unfold isWordChar Char.isAlphanum
  simp only [isIdentifierStart, Bool.or_eq_true] at h ⊢
  rcases h with h | h
  · exact .inl (.inl h)
  · exact .inr h

theorem solid_of_isIdentifierChar {c : Char} (h : isIdentifierChar c = true) : Text.Solid c := by
  rw [isIdentifierChar, Bool.or_eq_true, beq_iff_eq] at h
  rcases h with h | rfl
  · exact solid_of_isWordChar h
  · decide

theorem read_word {c : Char} (h : isIdentifierStart c = true) (rest : Text) :
    read c rest =
      (wordLexeme (c :: rest.takeWhile isIdentifierChar),
        (rest.takeWhile isIdentifierChar).length) := by
  have hword := isWordChar_of_isIdentifierStart h
  have hchar : isIdentifierChar c = true := by
    simp only [isWordChar, isIdentifierChar, Bool.or_eq_true] at hword ⊢
    exact .inl hword
  have hne {d : Char} (hd : isWordChar d = false) : c ≠ d := ne_of_isWordChar hword hd
  rw [read, if_neg fun hc => hne (by decide) hc.1, if_neg fun hc => hne (by decide) hc.1,
    if_neg (hne (by decide)), if_neg (not_or.mpr ⟨hne (by decide), hne (by decide)⟩),
    if_neg (hne (by decide)), if_pos hchar]

theorem isDigit_of_isIdentifierStart {c : Char} (h : isIdentifierStart c = true) :
    c.isDigit = false := by
  unfold isIdentifierStart Char.isAlpha Char.isUpper Char.isLower at h
  simp only [Bool.or_eq_true, Bool.and_eq_true, decide_eq_true_eq, beq_iff_eq, ge_iff_le,
    UInt32.le_iff_toNat_le] at h
  change ((65 ≤ c.toNat ∧ c.toNat ≤ 90) ∨ (97 ≤ c.toNat ∧ c.toNat ≤ 122)) ∨ c = '_' at h
  rw [Bool.eq_false_iff]
  intro hdigit
  simp only [Char.isDigit, Bool.and_eq_true, decide_eq_true_eq, ge_iff_le,
    UInt32.le_iff_toNat_le] at hdigit
  change 48 ≤ c.toNat ∧ c.toNat ≤ 57 at hdigit
  rcases h with h | rfl
  · omega
  · exact absurd hdigit (by decide)

theorem wordLexeme_eq_identifier {word : Text} (hstart : word.head?.any isIdentifierStart = true)
    (hne : word ≠ "external".toList) : wordLexeme word = .identifier := by
  cases word with
  | nil => simp at hstart
  | cons c word =>
    have hc : isIdentifierStart c = true := by simpa using hstart
    rw [wordLexeme, if_neg (by simp [isDigit_of_isIdentifierStart hc]), if_neg hne]

theorem takeWhile_append {p : Char → Bool} {front more : Text} (hfront : ∀ c ∈ front, p c = true)
    (hmore : more.head?.any p = false) : (front ++ more).takeWhile p = front := by
  rw [List.takeWhile_append_of_pos hfront]
  cases more with
  | nil => simp
  | cons c more => rw [List.takeWhile_cons_of_neg (by simpa using hmore), List.append_nil]

/-- A word is read up to a character that is in no identifier. -/
theorem read_word_append {word more : Text} (hstart : word.head?.any isIdentifierStart = true)
    (hword : word.all isIdentifierChar = true) (hmore : more.head?.any isIdentifierChar = false)
    {c : Char} {rest : Text} (h : word ++ more = c :: rest) :
    ∃ n, read c rest = (wordLexeme word, n) ∧ c :: rest.take n = word ∧ rest.drop n = more := by
  cases word with
  | nil => simp at hstart
  | cons d word =>
    rw [List.cons_append] at h
    obtain ⟨rfl, rfl⟩ := List.cons.inj h
    have hletters : ∀ e ∈ word, isIdentifierChar e = true := by
      rw [List.all_cons, Bool.and_eq_true, List.all_eq_true] at hword
      exact hword.2
    have htake := takeWhile_append hletters hmore
    refine ⟨word.length, ?_, ?_, List.drop_left⟩
    · rw [read_word (by simpa using hstart), htake]
    · rw [List.take_left]

theorem tokensFrom_word {word more : Text} (hstart : word.head?.any isIdentifierStart = true)
    (hword : word.all isIdentifierChar = true) (hmore : more.head?.any isIdentifierChar = false)
    (leading : Text) (p : Position) :
    tokensFrom leading p (word ++ more) =
      ⟨wordLexeme word, leading, word, p⟩ :: tokensFrom [] (p.advance word) more := by
  cases h : word ++ more with
  | nil =>
    obtain ⟨rfl, -⟩ := List.append_eq_nil_iff.mp h
    simp at hstart
  | cons c rest =>
    obtain ⟨n, hread, htake, hdrop⟩ := read_word_append hstart hword hmore h
    have hsolid : isBlank c = false := by
      apply solid_of_isWordChar
      apply isWordChar_of_isIdentifierStart
      rw [← htake] at hstart
      simpa using hstart
    rw [tokensFrom_read (by simp [hsolid]) hread]
    simp only [htake, hdrop]

theorem tokensFrom_opening {name : Text} (hstart : name.head?.any isIdentifierStart = true)
    (hname : name.all isIdentifierChar = true) (hne : name ≠ "external".toList) (p : Position)
    (more : Text) :
    tokensFrom [] p (' ' :: (name ++ ':' :: more)) =
      ⟨.identifier, [' '], name, p.step ' '⟩ :: ⟨.colon, [], [':'], (p.step ' ').advance name⟩ ::
        tokensFrom [] (((p.step ' ').advance name).advance [':']) more := by
  have hcolon : read ':' ([] ++ more) = (.colon, 0) := by
    rw [read]
    rfl
  have htoken := @tokensFrom_token ':' [] more _ (by decide) hcolon [] ((p.step ' ').advance name)
  rw [List.cons_append, List.nil_append] at htoken
  rw [tokensFrom_blank (by decide), List.nil_append, tokensFrom_word hstart hname (by simp; rfl),
    wordLexeme_eq_identifier hstart hne, htoken]

end Lexer

theorem nodup_tokenize (source : Text) : (tokenize source).Nodup := by
  apply (Lexer.pairwise_tokensFrom [] .start source).1.imp
  intro t u hbefore heq
  rw [heq] at hbefore
  exact Position.Before.irrefl _ hbefore

/-- No two tokens of a source start at the same line and column. -/
theorem eq_of_start_eq {source : Text} {t u : Token} (ht : t ∈ tokenize source)
    (hu : u ∈ tokenize source) (hline : t.start.line = u.start.line)
    (hcolumn : t.start.column = u.start.column) : t = u := by
  let Apart (a b : Token) : Prop := a.start.Before b.start ∨ b.start.Before a.start
  have hsymm : Std.Symm Apart := ⟨fun _ _ h => h.symm⟩
  have hapart : (tokenize source).Pairwise Apart :=
    (Lexer.pairwise_tokensFrom [] .start source).1.imp .inl
  apply Decidable.byContradiction
  intro hne
  have hor : Apart t u := hapart.forall ht hu hne
  simp only [Apart, Position.Before] at hor
  omega

end ForeignBindings
