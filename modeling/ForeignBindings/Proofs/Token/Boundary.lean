import ForeignBindings.Proofs.Token.Covering

/-! Where tokens end and start.  A reader stops behind a character that closes its token, or before
one that is in no identifier; so no token starts in the middle of a word, whatever stands before
it. -/

namespace ForeignBindings

open Text

/-! ### Comments end with their closing character -/

namespace Lexer

theorem finishes_blockCommentTail {text : Text} (h : blockCommentTail text < text.length) :
    Finishes (· = '/') (text.take (blockCommentTail text)) := by
  fun_induction blockCommentTail text with
  | case1 => cases h
  | case2 => exact finishes_concat ['*'] rfl
  | case3 c rest _ ih => exact (ih (by simpa using h)).cons c

/-! ### Words end before a character that is in no identifier -/

theorem head?_drop_takeWhile (p : Char → Bool) (text : Text) :
    (text.drop (text.takeWhile p).length).head?.any p = false := by
  rw [drop_length_takeWhile, Option.any_eq_false]
  intro c hc
  have hhead := List.head?_dropWhile_not p text
  rw [hc] at hhead
  simpa using hhead

theorem head?_drop_dottedNameLength (text : Text) :
    (text.drop (dottedNameLength text)).head?.any isIdentifierChar = false := by
  induction text with
  | nil => rfl
  | cons c rest ih =>
    rw [dottedNameLength]
    split
    · exact ih
    · rename_i hc
      rw [Bool.or_eq_true, not_or] at hc
      simpa using hc.1

/-! ### How tokens end -/

/-- How a token ends that goes on for some characters behind its first: it is one character that is
in no word, or its last character closes it and is in no word, or no character of an identifier
stands after it. -/
inductive Ends (c : Char) (rest : Text) : Nat → Prop
  | alone (hc : isWordChar c = false) : Ends c rest 0
  | closed {n : Nat} {d : Char} (hd : isWordChar d = false) (h : Finishes (· = d) (rest.take n)) :
      Ends c rest n
  | stopped {n : Nat} (h : (rest.drop n).head?.any isIdentifierChar = false) : Ends c rest n

section

variable {c : Char} {rest : Text} {lexeme : Lexeme} {n : Nat}

/-- A token that has not ended with its closing character goes on to the end of the source. -/
theorem ends_tail {d : Char} (hd : isWordChar d = false)
    (h : n < rest.length → Finishes (· = d) (rest.take n)) : Ends c rest n := by
  by_cases hinside : n < rest.length
  · exact .closed hd (h hinside)
  · refine .stopped ?_
    rw [List.drop_eq_nil_of_le (Nat.not_lt.mp hinside)]
    rfl

theorem ends_takeWhile {p : Char → Bool} (hp : ∀ d, isIdentifierChar d = true → p d = true) :
    Ends c rest (rest.takeWhile p).length := by
  refine .stopped ((Option.any_eq_false _ _).mpr fun d hd => ?_)
  have hstop := (Option.any_eq_false _ _).mp (head?_drop_takeWhile p rest) d hd
  rw [Bool.eq_false_iff] at hstop ⊢
  exact fun hchar => hstop (hp d hchar)

theorem ends_attribute? {decorator : Decorator} (h : attribute? rest = some (decorator, n)) :
    Ends c rest n := by
  unfold attribute? at h
  dsimp only at h
  split at h
  · split at h
    · rename_i inside hinside
      obtain ⟨m, hm, heq⟩ := Option.map_eq_some_iff.mp h
      obtain ⟨-, rfl⟩ := Prod.mk.inj heq
      have hclosing := argumentsLength?_closes hm
      rw [textOf_pieces] at hclosing
      have hclosed : isWordChar ')' = false := by decide
      refine .closed hclosed ?_
      rw [Nat.add_assoc, List.take_add, hinside]
      exact ((finishes_take hclosing).cons '(').append _
    · obtain ⟨-, rfl⟩ := Prod.mk.inj (Option.some.inj h)
      exact .stopped (head?_drop_dottedNameLength rest)
  · cases h

theorem ends_read (h : read c rest = (lexeme, n)) : Ends c rest n := by
  unfold read at h
  split at h
  · obtain ⟨-, rfl⟩ := Prod.mk.inj h
    -- a line comment stops before a line feed, which is in no identifier
    apply ends_takeWhile
    intro d hd
    rw [bne_iff_ne]
    rintro rfl
    exact absurd hd (by decide)
  split at h
  · rename_i hstar
    obtain ⟨more, rfl⟩ := List.head?_eq_some_iff.mp hstar.2
    obtain ⟨-, rfl⟩ := Prod.mk.inj h
    have hslash : isWordChar '/' = false := by decide
    refine ends_tail hslash fun hinside => ?_
    have htail : blockCommentTail more < more.length := by simpa using hinside
    exact (finishes_blockCommentTail htail).cons '*'
  split at h
  · rename_i hat
    split at h
    · rename_i hattribute
      obtain ⟨-, rfl⟩ := Prod.mk.inj h
      exact ends_attribute? hattribute
    · obtain ⟨-, rfl⟩ := Prod.mk.inj h
      exact .alone (by rw [hat]; decide)
  split at h
  · rename_i hquote
    obtain ⟨-, rfl⟩ := Prod.mk.inj h
    have hc : isWordChar c = false := by rcases hquote with rfl | rfl <;> decide
    exact ends_tail hc finishes_stringTail
  split at h
  · split at h
    · rename_i hliteral
      obtain ⟨-, rfl⟩ := Prod.mk.inj h
      have hprime : isWordChar '\x27' = false := by decide
      exact .closed hprime (finishes_charTail? hliteral)
    · obtain ⟨-, rfl⟩ := Prod.mk.inj h
      exact ends_takeWhile fun d hd => hd
  split at h
  · obtain ⟨-, rfl⟩ := Prod.mk.inj h
    exact ends_takeWhile fun d hd => hd
  rename_i hchar
  split at h
  · rename_i harrow
    obtain ⟨more, rfl⟩ := List.head?_eq_some_iff.mp harrow.2
    obtain ⟨-, rfl⟩ := Prod.mk.inj h
    have hangle : isWordChar '>' = false := by decide
    exact .closed hangle (finishes_concat [] rfl)
  · obtain ⟨-, rfl⟩ := Prod.mk.inj h
    have hword : (isWordChar c || c == '\x27') = false := Bool.eq_false_iff.mpr hchar
    exact .alone (Bool.or_eq_false_iff.mp hword).1

/-- Before a character of an identifier, a token ends with a character that is in no word. -/
theorem Ends.finishes (h : Ends c rest n)
    (hnext : (rest.drop n).head?.any isIdentifierChar = true) :
    Finishes (isWordChar · = false) (c :: rest.take n) := by
  cases h with
  | alone hc => exact ⟨c, rfl, hc⟩
  | closed hd hfinishes => exact (hfinishes.mono fun e he => he ▸ hd).cons c
  | stopped hstop =>
    rw [hstop] at hnext
    cases hnext

end

/-! ### Where tokens start -/

/-- No word goes on across the place between the two texts. -/
def WordBreak (front rest : Text) : Prop :=
  rest.head?.any isIdentifierChar = true → ∀ c ∈ front.getLast?, isWordChar c = false

theorem wordBreak_nil (rest : Text) : WordBreak [] rest := by
  intro _ c hc
  cases hc

theorem wordBreak_of_finishes {front text rest : Text}
    (h : rest.head?.any isIdentifierChar = true → Finishes (isWordChar · = false) text) :
    WordBreak (front ++ text) rest := by
  intro hnext c hc
  obtain ⟨d, hd, hword⟩ := (h hnext).append front
  rw [Option.mem_def, hd] at hc
  exact Option.some.inj hc ▸ hword

theorem wordBreak_blank (front : Text) {c : Char} (h : isBlank c = true) (rest : Text) :
    WordBreak (front ++ [c]) rest := by
  refine wordBreak_of_finishes fun _ => ⟨c, rfl, Bool.eq_false_iff.mpr fun hword => ?_⟩
  have hsolid : isBlank c = false := solid_of_isWordChar hword
  rw [h] at hsolid
  cases hsolid

/-- The token starts in the source between the two texts: its place is the one behind the first, and
it is what is read from the second. -/
structure StartsBetween (source front rest : Text) (t : Token) : Prop where
  source_eq : source = front ++ rest
  start_eq : t.start = Position.start.advance front
  wordBreak : WordBreak front rest
  reads : rest = [] ∧ t.lexeme = .endOfFile ∨
    ∃ c more n, rest = c :: more ∧ read c more = (t.lexeme, n)

theorem startsBetween_of_mem {front leading text : Text} {p : Position} {t : Token}
    (hp : p = Position.start.advance front) (hbreak : WordBreak front text)
    (ht : t ∈ tokensFrom leading p text) :
    ∃ front' rest, StartsBetween (front ++ text) front' rest t := by
  -- What has been read already is general: it takes up the blanks and the tokens on the way.
  induction leading, p, text using tokensFrom.induct generalizing front with
  | case1 leading p =>
    rw [tokensFrom_nil, List.mem_singleton] at ht
    exact ⟨front, [], rfl, by rw [ht, hp], hbreak, .inl ⟨rfl, by rw [ht]⟩⟩
  | case2 leading p c rest hblank ih =>
    rw [tokensFrom_blank hblank] at ht
    have hp' : p.step c = Position.start.advance (front ++ [c]) := by
      rw [Position.advance_append, hp]
      rfl
    have hstarts := ih hp' (wordBreak_blank front hblank rest) ht
    rwa [List.append_assoc] at hstarts
  | case3 leading p c rest hblank lexeme n hread text =>
    rename_i ih
    rw [tokensFrom_read hblank hread, List.mem_cons] at ht
    rcases ht with rfl | ht
    · exact ⟨front, c :: rest, rfl, hp, hbreak, .inr ⟨c, rest, n, rfl, hread⟩⟩
    · have hp' : p.advance text = Position.start.advance (front ++ text) := by
        rw [Position.advance_append, hp]
      have hstarts := ih hp' (wordBreak_of_finishes (ends_read hread).finishes) ht
      rwa [List.append_assoc, List.cons_append, List.take_append_drop] at hstarts

theorem startsBetween_of_mem_tokenize {source : Text} {t : Token} (ht : t ∈ tokenize source) :
    ∃ front rest, StartsBetween source front rest t :=
  @startsBetween_of_mem [] _ _ _ _ rfl (wordBreak_nil source) ht

theorem eq_of_wordLexeme_eq_external {word : Text} (h : wordLexeme word = .external) :
    word = "external".toList := by
  rw [wordLexeme] at h
  split at h
  · cases h
  split at h
  · assumption
  · cases h

/-- The keyword is read where it stands as a whole word. -/
theorem keyword_of_read {c : Char} {rest : Text} {n : Nat} (h : read c rest = (.external, n)) :
    ∃ after, c :: rest = "external".toList ++ after ∧
      after.head?.any isIdentifierChar = false := by
  have hword : wordLexeme (c :: rest.takeWhile isIdentifierChar) = .external := by
    unfold read at h
    split at h
    · cases h
    split at h
    · cases h
    split at h
    · split at h <;> cases h
    split at h
    · cases h
    split at h
    · split at h
      · cases h
      · have hname := congrArg Prod.fst h
        dsimp only at hname
        split at hname <;> cases hname
    split at h
    · exact congrArg Prod.fst h
    split at h
    · cases h
    · exact absurd (congrArg Prod.fst h) (markLexeme_ne rfl c)
  refine ⟨rest.drop (rest.takeWhile isIdentifierChar).length, ?_, head?_drop_takeWhile _ rest⟩
  rw [← eq_of_wordLexeme_eq_external hword, List.cons_append, drop_length_takeWhile,
    List.takeWhile_append_dropWhile]

end Lexer

end ForeignBindings
