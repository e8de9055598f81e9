import ForeignBindings.Proofs.Token.Covering

/-! Tokens against pieces.  Outside attributes and comments, what a token means for nesting is what
the pieces of its text mean, with one exception: a prime inside a word is a letter to the lexer, but
to the pieces it can open a character literal, and the literal may reach beyond the word. -/

namespace ForeignBindings

open Depth Text

/-- The marks that the declarations and the types are cut at. -/
inductive Separator
  | comma
  | arrow
  | equals
  deriving DecidableEq

namespace Separator

def lexeme : Separator → Lexeme
  | .comma => .comma
  | .arrow => .fatArrow
  | .equals => .assign

def text : Separator → Text
  | .comma => [',']
  | .arrow => Piece.arrowText
  | .equals => ['=']

theorem lexeme_injective {s s' : Separator} (h : s.lexeme = s'.lexeme) : s = s' := by
  cases s <;> cases s' <;> first | rfl | cases h

theorem text_injective {s s' : Separator} (h : s.text = s'.text) : s = s' := by
  cases s <;> cases s' <;> first | rfl | cases h

end Separator

/-- A token of the lexeme neither changes a depth nor separates. -/
def Lexeme.isSilent : Lexeme → Bool
  | .bracket _ | .comma | .fatArrow | .assign => false
  | _ => true

/-- The piece neither changes a depth nor separates. -/
structure Piece.Silent (p : Piece) : Prop where
  feed : ∀ d, p.feed d = d
  separator : ∀ s : Separator, p.separator? ≠ some s.text

theorem silent_literal (l : Text) : (Piece.literal l).Silent :=
  ⟨fun _ => rfl, fun _ => by simp [Piece.separator?]⟩

theorem silent_plain {c : Char} (hbracket : bracket? c = none) (hcomma : c ≠ ',')
    (hequals : c ≠ '=') : (Piece.plain c).Silent := by
  constructor
  · intro d
    rw [Piece.feed, Depth.feed, hbracket]
  · intro s
    cases s <;> simp [Piece.separator?, Separator.text, Piece.arrowText, hcomma, hequals]

theorem silent_identifierChar {c : Char} (h : isIdentifierChar c = true) :
    (Piece.plain c).Silent := by
  apply silent_plain (bracket?_eq_none h (by decide))
  · rintro rfl
    exact absurd h (by decide)
  · rintro rfl
    exact absurd h (by decide)

/-! ### The pieces of one token -/

/-- The pieces mean the same for nesting as a token of the lexeme: they change the depth as it
does, and hold a separator at the top level only where it is that separator. -/
structure Reads (lexeme : Lexeme) (ps : List Piece) : Prop where
  through : ∀ t : Token, t.lexeme = lexeme → ∀ d, d.through ps = t.feed d
  separates : ∀ (s : Separator) (index offset : Nat) (d : Depth),
    (offset, s.text) ∈ topLevelFrom index d ps ↔
      lexeme = s.lexeme ∧ offset = index ∧ d.atTop = true

theorem feed_of_isSilent {t : Token} (h : t.lexeme.isSilent = true) (d : Depth) :
    t.feed d = d := by
  rw [Token.feed]
  split
  · rename_i b hbracket
    rw [hbracket] at h
    cases h
  · rfl

theorem ne_of_isSilent {l : Lexeme} (h : l.isSilent = true) (s : Separator) : l ≠ s.lexeme := by
  rintro rfl
  cases s <;> cases h

theorem Reads.cons {l : Lexeme} (hl : l.isSilent = true) {p : Piece} {ps : List Piece}
    (hp : p.Silent) (h : Reads l ps) : Reads l (p :: ps) where
  through := by
    intro t ht d
    rw [through_cons, hp.feed]
    exact h.through t ht d
  separates := by
    intro s index offset d
    simp [mem_topLevelFrom_cons, hp.separator s, h.separates, ne_of_isSilent hl s]

theorem reads_silent {l : Lexeme} (hl : l.isSilent = true) {ps : List Piece}
    (h : ∀ p ∈ ps, p.Silent) : Reads l ps := by
  induction ps with
  | nil =>
    constructor
    · rintro t rfl d
      exact (feed_of_isSilent hl d).symm
    · intro s index offset d
      simp [topLevelFrom, ne_of_isSilent hl s]
  | cons p ps ih =>
    rw [List.forall_mem_cons] at h
    exact (ih h.2).cons hl h.1

theorem reads_bracket {c : Char} {b : Bracket} (h : bracket? c = some b) :
    Reads (.bracket b) [.plain c] where
  through := by
    intro t ht d
    rw [through_cons, through_nil, Piece.feed, Depth.feed, h, Token.feed, ht]
  separates := by
    intro s index offset d
    have hcomma : c ≠ ',' := ne_of_bracket? h rfl
    have hequals : c ≠ '=' := ne_of_bracket? h rfl
    rw [mem_topLevelFrom_cons]
    cases s <;>
      simp [Piece.separator?, Separator.text, Piece.arrowText, Separator.lexeme, topLevelFrom,
        hcomma, hequals]

theorem reads_separator (s : Separator) {p : Piece} (hseparator : p.separator? = some s.text)
    (hfeed : ∀ d, p.feed d = d) : Reads s.lexeme [p] where
  through := by
    intro t ht d
    rw [through_cons, through_nil, hfeed, Token.feed, ht]
    cases s <;> rfl
  separates := by
    intro s' index offset d
    rw [mem_topLevelFrom_cons, hseparator, Option.some.injEq]
    simp only [topLevelFrom, List.not_mem_nil, or_false]
    constructor
    · rintro ⟨htext, hplace⟩
      exact ⟨congrArg _ (Separator.text_injective htext), hplace⟩
    · rintro ⟨hlexeme, hplace⟩
      exact ⟨congrArg _ (Separator.lexeme_injective hlexeme), hplace⟩

/-- How the pieces of a text begin whose first token has the lexeme and `n` characters: with pieces
of just these characters, or with a literal in a word that reaches beyond the word. -/
inductive Cut (l : Lexeme) (n : Nat) (text : Text) : Prop
  | aligned {ps : List Piece} (hpieces : pieces text = ps ++ pieces (text.drop n))
      (htext : Piece.textOf ps = text.take n) (hreads : Reads l ps)
  | overrun {ps rest : List Piece} {literal : Text}
      (hpieces : pieces text = ps ++ .literal literal :: rest) (hps : ∀ p ∈ ps, p.Silent)
      (hl : l.isSilent = true) (hinside : (Piece.textOf ps).length < n)
      (hbeyond : n < (Piece.textOf ps).length + literal.length)

section Cut

variable {l : Lexeme} {c : Char} {rest : Text}

/-- Behind a silent piece, the rest of a word is cut as a word. -/
theorem Cut.cons (hl : l.isSilent = true) {n : Nat} {text more : Text} {p : Piece}
    (h : Cut l n more) (hp : p.Silent) (hpieces : pieces text = p :: pieces more)
    (htext : text = p.text ++ more) : Cut l (p.text.length + n) text := by
  cases h with
  | @aligned ps hmore hps hreads =>
    apply @Cut.aligned _ _ _ (p :: ps) _ _ (hreads.cons hl hp)
    · rw [hpieces, hmore, htext, List.drop_length_add_append]
      rfl
    · rw [Piece.textOf_cons, hps, htext, List.take_length_add_append]
  | @overrun ps rest literal hmore hps _ hinside hbeyond =>
    have hcons : pieces text = p :: ps ++ .literal literal :: rest := by
      rw [hpieces, hmore]
      rfl
    apply Cut.overrun hcons (List.forall_mem_cons.mpr ⟨hp, hps⟩) hl
    · rw [Piece.textOf_cons, List.length_append]
      omega
    · rw [Piece.textOf_cons, List.length_append]
      omega

theorem Cut.single {p : Piece} {n : Nat} (hpieces : pieces (c :: rest) = p :: pieces (rest.drop n))
    (htext : p.text = c :: rest.take n) (hreads : Reads l [p]) : Cut l (n + 1) (c :: rest) :=
  @Cut.aligned _ _ _ [p] hpieces (by simp [Piece.textOf, htext]) hreads

theorem cut_literal (hl : l.isSilent = true) {n : Nat} (h : literalTail? c rest = some n) :
    Cut l (n + 1) (c :: rest) :=
  .single (pieces_literal h) rfl (reads_silent hl (by simp [silent_literal]))

/-- A literal that opens in a run of letters ends in the run or reaches beyond it. -/
theorem cut_run (hl : l.isSilent = true) {run : Text} (h : ∀ c ∈ run, isIdentifierChar c = true)
    (more : Text) : Cut l run.length (run ++ more) := by
  induction hn : run.length using Nat.strongRecOn generalizing run with
  | ind n ih =>
    cases run with
    | nil =>
      subst hn
      exact @Cut.aligned _ _ _ [] rfl rfl (reads_silent hl (by simp))
    | cons c run =>
      obtain ⟨hc, hrun⟩ := List.forall_mem_cons.mp h
      rw [List.length_cons] at hn
      cases htail : literalTail? c (run ++ more) with
      | none =>
        have hplain : pieces (c :: (run ++ more)) = .plain c :: pieces (run ++ more) := by
          apply pieces_plain htail
          rintro ⟨rfl, -⟩
          exact absurd hc (by decide)
        have hcut := (ih _ (by omega) hrun rfl).cons hl (silent_identifierChar hc) hplain rfl
        rwa [Piece.text, List.length_singleton, Nat.add_comm, hn] at hcut
      | some k =>
        have hpieces := pieces_literal htail
        by_cases hinside : k ≤ run.length
        · rw [List.drop_append_of_le_length hinside, List.take_append_of_le_length hinside]
            at hpieces
          have hlength : (run.drop k).length = n - (k + 1) := by
            rw [List.length_drop]
            omega
          have hrest : ∀ d ∈ run.drop k, isIdentifierChar d = true := fun d hd =>
            hrun d (List.mem_of_mem_drop hd)
          have htext : c :: (run ++ more) = (c :: run.take k) ++ (run.drop k ++ more) := by
            rw [List.cons_append, ← List.append_assoc, List.take_append_drop]
          have hcut := (ih _ (by omega) hrest hlength).cons hl (silent_literal _) hpieces htext
          have htotal : (Piece.literal (c :: run.take k)).text.length + (n - (k + 1)) = n := by
            rw [Piece.text, List.length_cons, List.length_take]
            omega
          rwa [htotal] at hcut
        · have hk := literalTail?_le htail
          refine @Cut.overrun _ _ _ [] _ _ hpieces (by simp) hl (by simp [Piece.textOf]; omega) ?_
          simp only [Piece.textOf, List.flatMap_nil, List.length_nil, List.length_cons,
            List.length_take]
          omega

end Cut

namespace Lexer

/-- A mark of one character is cut off as one piece. -/
theorem cut_mark {c : Char} {rest : Text} (hquote : isQuote c = false)
    (harrow : ¬(c = '=' ∧ rest.head? = some '>')) : Cut (markLexeme c) 1 (c :: rest) := by
  have hprime : c ≠ '\x27' := by
    rintro rfl
    exact absurd hquote (by decide)
  have htail : literalTail? c rest = none := by
    rw [literalTail?, if_neg hprime, hquote]
    rfl
  apply @Cut.single _ _ _ (.plain c) 0 (pieces_plain htail harrow) rfl
  cases hbracket : bracket? c with
  | some b =>
    rw [markLexeme, hbracket]
    exact reads_bracket hbracket
  | none =>
    have hfeed (d : Depth) : Piece.feed d (.plain c) = d := by
      rw [Piece.feed, Depth.feed, hbracket]
    rw [markLexeme, hbracket]
    by_cases hequals : c = '='
    · subst hequals
      exact reads_separator .equals rfl hfeed
    · by_cases hcomma : c = ','
      · subst hcomma
        exact reads_separator .comma rfl hfeed
      · have hsilent : (Piece.plain c).Silent := silent_plain hbracket hcomma hequals
        simp only [if_neg hequals, if_neg hcomma]
        split
        · exact reads_silent rfl (by simp [hsilent])
        · split
          · exact reads_silent rfl (by simp [hsilent])
          · exact reads_silent rfl (by simp [hsilent])

theorem isSilent_wordLexeme (word : Text) : (wordLexeme word).isSilent = true := by
  unfold wordLexeme
  repeat' split
  all_goals rfl

/-- Outside attributes and comments, the pieces of a text begin as its first token does. -/
theorem cut_read {c : Char} {rest : Text} {l : Lexeme} {n : Nat} (h : read c rest = (l, n))
    (hat : c ≠ '@') (hslash : c ≠ '/') : Cut l (n + 1) (c :: rest) := by
  have hword (run : Text) : ∀ d ∈ run.takeWhile isIdentifierChar, isIdentifierChar d = true :=
    List.all_eq_true.mp List.all_takeWhile
  rw [read, if_neg fun hc => hslash hc.1, if_neg fun hc => hslash hc.1, if_neg hat] at h
  split at h
  · rename_i hquote
    obtain ⟨rfl, rfl⟩ := Prod.mk.inj h
    have hne : c ≠ '\x27' := by
      rintro rfl
      exact absurd hquote (by decide)
    apply cut_literal rfl
    rw [literalTail?, if_neg hne, if_pos]
    rcases hquote with rfl | rfl <;> rfl
  split at h
  · rename_i hprime
    subst hprime
    split at h
    · rename_i k htail
      obtain ⟨rfl, rfl⟩ := Prod.mk.inj h
      apply cut_literal rfl
      rw [literalTail?, if_pos rfl, htail]
    · rename_i htail
      obtain ⟨hl, rfl⟩ := Prod.mk.inj h
      have hsilent : l.isSilent = true := by
        rw [← hl]
        split <;> rfl
      have hmark : (Piece.plain '\x27').Silent := silent_identifierChar (by decide)
      have hname := cut_run hsilent (hword rest) (rest.dropWhile isIdentifierChar)
      rw [List.takeWhile_append_dropWhile] at hname
      have hcut := hname.cons hsilent hmark (pieces_prime htail) rfl
      rwa [Piece.text, List.length_singleton, Nat.add_comm] at hcut
  split at h
  · rename_i hchar
    obtain ⟨rfl, rfl⟩ := Prod.mk.inj h
    have hcut := cut_run (isSilent_wordLexeme (c :: rest.takeWhile isIdentifierChar))
      (List.forall_mem_cons.mpr ⟨hchar, hword rest⟩) (rest.dropWhile isIdentifierChar)
    simpa using hcut
  split at h
  · rename_i harrow
    obtain ⟨rfl, rfl⟩ := Prod.mk.inj h
    obtain ⟨rfl, hhead⟩ := harrow
    obtain ⟨more, rfl⟩ := List.head?_eq_some_iff.mp hhead
    exact .single (pieces_arrow more) rfl (reads_separator .arrow rfl fun _ => rfl)
  · rename_i hquote hprime hchar harrow
    obtain ⟨rfl, rfl⟩ := Prod.mk.inj h
    rw [not_or] at hquote
    exact cut_mark (by simp [isQuote, hquote, hprime]) harrow

end Lexer

end ForeignBindings
