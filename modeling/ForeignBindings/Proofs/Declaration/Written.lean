import ForeignBindings.Proofs.Declaration.Capture
import ForeignBindings.Proofs.Nesting.Quoted
import ForeignBindings.Proofs.Token.Bare

/-! Declarations as they are written.  A declaration is read as it is written wherever it stands,
since its tokens do not depend on their places.  Types that hold comments are left out: the scan
gives a type without its comments, which is not the text that was written. -/

namespace ForeignBindings

open Text Lexer

/-- The tokens spell a type: there are no comments among them, no end of the source and no equals
sign that would end the type, and all brackets are closed. -/
structure SpellsType (type : Text) (tokens : List Token) : Prop where
  comments : ∀ t ∈ tokens, t.isComment = false
  spans : (sourceOf tokens).trim = type
  unended : Unended .zero tokens
  balanced : (tokens.foldl Token.feed .zero).atTop = true

/-- What stands behind the colon of a declaration, on the line that ends with it. -/
def typeAndBinding (type binding : Text) : Text :=
  ' ' :: (type ++ " = \x22".toList ++ binding ++ ['\x22'])

/-- A declaration as it is written: its name, its type and what it is bound to, where the tokens
behind its colon spell the type and then an equals sign and what it is bound to. -/
structure WrittenDeclaration where
  name : Text
  type : Text
  binding : Text
  name_start : name.head?.any isIdentifierStart = true
  name_chars : name.all isIdentifierChar = true
  name_ne : name ≠ "external".toList
  reads : ∃ typeTokens assign bound rest,
    tokenize (typeAndBinding type binding) = typeTokens ++ assign :: bound :: rest ∧
    SpellsType type typeTokens ∧ assign.lexeme = .assign ∧ bound.lexeme = .string binding

namespace WrittenDeclaration

variable (w : WrittenDeclaration)

def afterColon : Text := typeAndBinding w.type w.binding

/-- The declaration from its keyword on. -/
def text : Text := "external".toList ++ ' ' :: (w.name ++ ':' :: w.afterColon)

end WrittenDeclaration

/-! ### Tokens without their places -/

theorem spannedText_map_unplaced (tokens : List Token) :
    spannedText (tokens.map unplaced) = spannedText tokens := by
  cases tokens with
  | nil => rfl
  | cons t rest =>
    rw [List.map_cons, spannedText, spannedText, List.flatMap_map]
    rfl

theorem foldl_feed_map_unplaced (d : Depth) (tokens : List Token) :
    (tokens.map unplaced).foldl Token.feed d = tokens.foldl Token.feed d := by
  rw [List.foldl_map]
  rfl

theorem unended_map_unplaced {d : Depth} {tokens : List Token} :
    Unended d (tokens.map unplaced) ↔ Unended d tokens := by
  induction tokens generalizing d with
  | nil => rfl
  | cons t rest ih => exact and_congr_right fun _ => and_congr_right fun _ => ih

/-! ### Types without comments -/

/-- Tokens without comments span their source, but for the blanks around it. -/
theorem spannedText_eq_trim {tokens : List Token} (hcomments : ∀ t ∈ tokens, t.isComment = false)
    (hleading : ∀ t ∈ tokens, ∀ c ∈ t.leading, isBlank c = true) :
    spannedText tokens = (sourceOf tokens).trim := by
  cases tokens with
  | nil => rfl
  | cons t rest =>
    have hplain : ∀ u ∈ t :: rest, u.plainText = u.text := fun u hu => by
      rw [Token.plainText, hcomments u hu]
      rfl
    have hrest : rest.flatMap (fun u => u.leading ++ u.plainText) = sourceOf rest := by
      rw [sourceOf, List.flatMap_def, List.flatMap_def]
      apply congrArg List.flatten
      apply List.map_congr_left
      intro u hu
      rw [hplain u (by simp [hu])]
    have hsource : sourceOf (t :: rest) = t.leading ++ (t.text ++ sourceOf rest) := by
      simp [sourceOf]
    rw [spannedText, hplain t (by simp), hrest, hsource,
      Text.trim_blanks_append (hleading t (by simp))]

/-! ### The tokens of a written declaration -/

namespace WrittenDeclaration

variable (w : WrittenDeclaration)

/-- Wherever the declaration stands, its keyword is followed by its name, its colon, the tokens of
its type, an equals sign and what it is bound to. -/
theorem tokensFrom_afterKeyword (p : Position) :
    ∃ name colon type assign bound rest,
      tokensFrom [] p (' ' :: (w.name ++ ':' :: w.afterColon)) =
        name :: colon :: (type ++ assign :: bound :: rest) ∧
      name.lexeme = .identifier ∧ name.text = w.name ∧ colon.lexeme = .colon ∧
      Unended .zero type ∧ (type.foldl Token.feed .zero).atTop = true ∧
      spannedText type = w.type ∧ assign.lexeme = .assign ∧ bound.lexeme = .string w.binding := by
  obtain ⟨typeTokens, assign, bound, rest, htokenize, hspells, hassign, hbound⟩ := w.reads
  have hread := tokensFrom_opening w.name_start w.name_chars w.name_ne p w.afterColon
  generalize ((p.step ' ').advance w.name).advance [':'] = q at hread
  have hplaced := map_unplaced_tokensFrom [] w.afterColon q .start
  rw [show tokensFrom [] .start w.afterColon = _ from htokenize, List.map_append,
    List.map_cons, List.map_cons] at hplaced
  obtain ⟨type, more, htokens, htype, hmore⟩ := List.map_eq_append_iff.mp hplaced
  obtain ⟨assign', more, rfl, hassign', hmore⟩ := List.map_eq_cons_iff.mp hmore
  obtain ⟨bound', rest', rfl, hbound', -⟩ := List.map_eq_cons_iff.mp hmore
  have hleading : ∀ t ∈ typeTokens, ∀ c ∈ t.leading, isBlank c = true := by
    intro t ht
    have hmem : t ∈ tokenize (typeAndBinding w.type w.binding) :=
      htokenize ▸ List.mem_append_left _ ht
    exact isBlank_of_mem_leading (List.forall_mem_nil _) t hmem
  refine ⟨_, _, type, assign', bound', rest', by rw [hread, htokens], rfl, rfl, rfl, ?_, ?_, ?_,
    ?_, ?_⟩
  · rw [← unended_map_unplaced, htype, unended_map_unplaced]
    exact hspells.unended
  · rw [← foldl_feed_map_unplaced, htype, foldl_feed_map_unplaced]
    exact hspells.balanced
  · rw [← spannedText_map_unplaced, htype, spannedText_map_unplaced,
      spannedText_eq_trim hspells.comments hleading, hspells.spans]
  · exact (congrArg Token.lexeme hassign').trans hassign
  · exact (congrArg Token.lexeme hbound').trans hbound

theorem declared_afterKeyword (file : Text) (pending : Attributes) {keyword : Token}
    (hkeyword : keyword.lexeme = .external) (p : Position) :
    declared file pending keyword (tokensFrom [] p (' ' :: (w.name ++ ':' :: w.afterColon))) =
      some ⟨w.name, w.binding, w.type, pending, file, keyword.start.line,
        keyword.start.column⟩ := by
  obtain ⟨name, colon, type, assign, bound, rest, htokens, hname, hnameText, hcolon, hunended,
    htop, hspanned, hassign, hbound⟩ := w.tokensFrom_afterKeyword p
  rw [declared, if_pos hkeyword, htokens,
    attempt_declaration file pending keyword hname hcolon hunended htop hassign hbound, hnameText,
    hspanned]

end WrittenDeclaration

/-! ### Types by their texts -/

/-- A type by its text: it has no blanks around it and no quotes, annotations or comments, its
brackets are closed, and no equals sign stands outside of them. -/
structure BareType (type : Text) : Prop where
  trim : type.trim = type
  bare : ∀ c ∈ type, Bare c
  balanced : type.isBalanced = true
  undivided : type.findTop? ['='] = none

theorem unended_of_not_separates {d : Depth} {tokens : List Token}
    (hend : ∀ t ∈ tokens, t.lexeme ≠ .endOfFile)
    (h : ∀ offset, ¬Separates .equals offset d tokens) : Unended d tokens := by
  induction tokens generalizing d with
  | nil => trivial
  | cons t tokens ih =>
    refine ⟨hend t List.mem_cons_self, ?_, ih (fun u hu => hend u (List.mem_cons_of_mem _ hu)) ?_⟩
    · rintro ⟨hassign, htop⟩
      exact h _ (separates_cons.mpr (.inl ⟨hassign, rfl, htop⟩))
    · intro offset hseparates
      exact h offset (separates_cons.mpr (.inr hseparates))

theorem Separates.append {s : Separator} {offset : Nat} {d : Depth} {tokens : List Token}
    (h : Separates s offset d tokens) (more : List Token) :
    Separates s offset d (tokens ++ more) := by
  obtain ⟨before, t, after, rfl, hlexeme, hstart, htop⟩ := h
  exact ⟨before, t, after ++ more, by simp, hlexeme, hstart, htop⟩

/-- The tokens of such a type spell it, whatever follows the blank after it. -/
theorem BareType.tokensFrom {type : Text} (h : BareType type) (place : Position) :
    ∃ tokens leading, SpellsType type tokens ∧ spannedText tokens = type ∧
      ∀ more, Lexer.tokensFrom [' '] place (type ++ ' ' :: more) =
        tokens ++ Lexer.tokensFrom leading ((place.advance type).step ' ') more := by
  obtain ⟨tokens, blanks, htokens, happend⟩ := tokensFrom_bare h.bare [' '] place
  have hmem {t : Token} (ht : t ∈ tokens) : t ∈ Lexer.tokensFrom [' '] place type :=
    htokens ▸ List.mem_append_left _ ht
  have hblank : ∀ t ∈ Lexer.tokensFrom [' '] place type, ∀ c ∈ t.leading, isBlank c = true :=
    isBlank_of_mem_leading (List.forall_mem_singleton.mpr (by decide))
  have hcomments : ∀ t ∈ tokens, t.isComment = false :=
    fun t ht => isComment_of_bare h.bare _ _ t (hmem ht)
  have hspans : (sourceOf tokens).trim = type := by
    have hsource := sourceOf_tokensFrom [' '] place type
    rw [htokens, sourceOf, List.flatMap_append] at hsource
    have hlast : ∀ c ∈ blanks, isBlank c = true := by
      apply hblank ⟨.endOfFile, blanks, [], _⟩
      rw [htokens]
      exact List.mem_append_right _ List.mem_cons_self
    rw [← trim_append_blanks hlast]
    simp only [List.flatMap_cons, List.flatMap_nil, List.append_nil] at hsource
    rw [sourceOf, hsource, List.singleton_append, trim_blank_cons (by decide), h.trim]
  refine ⟨tokens, blanks ++ [' '], ⟨hcomments, hspans, ?_, ?_⟩, ?_, happend⟩
  · apply unended_of_not_separates
    · obtain ⟨body, last, hclosed, -, -, -, hbody⟩ := tokensFrom_closed [' '] place type
      obtain ⟨rfl, -⟩ := List.append_inj' (hclosed.symm.trans htokens) rfl
      exact hbody
    · intro offset hseparates
      have hlacks := findTop?_eq_none_iff.mp h.undivided
      refine @not_separates_of_bare _ .zero h.bare .equals hlacks [' '] place offset ?_
      rw [htokens]
      exact hseparates.append _
  · have hfeed := foldl_feed_of_bare h.bare [' '] place .zero
    rw [htokens, List.foldl_append, through_of_balanced h.balanced] at hfeed
    exact Depth.atTop_iff.mpr hfeed
  · rw [spannedText_eq_trim hcomments fun t ht => hblank t (hmem ht), hspans]

/-- An equals sign and a text in quotes are read as that. -/
theorem tokensFrom_bound {binding : Text} (h : Quotable binding) (leading : Text)
    (place : Position) (more : Text) :
    tokensFrom leading place ('=' :: ' ' :: (stringLiteral binding ++ more)) =
      ⟨.assign, leading, ['='], place⟩ ::
        ⟨.string binding, [' '], stringLiteral binding, (place.advance ['=']).step ' '⟩ ::
          tokensFrom []
            (((place.advance ['=']).step ' ').advance (stringLiteral binding)) more := by
  have hassign (rest : Text) : Lexer.read '=' ([] ++ ' ' :: rest) = (.assign, 0) := by
    rw [Lexer.read]
    rfl
  have hstring : Lexer.read '\x22' (binding ++ ['\x22'] ++ more) =
      (.string binding, (binding ++ ['\x22']).length) := by
    have htail := stringTail_quotable h more
    rw [List.append_assoc, List.singleton_append, Lexer.read,
      if_neg fun h => absurd h.1 (by decide), if_neg fun h => absurd h.1 (by decide),
      if_neg (by decide), if_pos (.inl rfl), htail]
    simp
  have htoken := @tokensFrom_token '=' [] (' ' :: (stringLiteral binding ++ more)) _ (by decide)
    (hassign _) leading place
  rw [List.cons_append, List.nil_append] at htoken
  rw [htoken, tokensFrom_blank (by decide), stringLiteral, enclosed,
    tokensFrom_token (by decide) hstring]
  rfl

/-- The declaration with a name, such a type, and a binding that needs no escapes. -/
def WrittenDeclaration.ofTexts (name type binding : Text)
    (hstart : name.head?.any isIdentifierStart = true) (hchars : name.all isIdentifierChar = true)
    (hname : name ≠ "external".toList) (htype : BareType type) (hbinding : Quotable binding) :
    WrittenDeclaration where
  name := name
  type := type
  binding := binding
  name_start := hstart
  name_chars := hchars
  name_ne := hname
  reads := by
    obtain ⟨tokens, leading, hspells, -, htokens⟩ := htype.tokensFrom (Position.start.step ' ')
    have htext : typeAndBinding type binding =
        ' ' :: (type ++ ' ' :: '=' :: ' ' :: (stringLiteral binding ++ [])) := by
      simp [typeAndBinding, stringLiteral, enclosed]
    have hread := @tokensFrom_blank ' ' (by decide) [] .start
      (type ++ ' ' :: '=' :: ' ' :: (stringLiteral binding ++ []))
    rw [List.nil_append, htokens, tokensFrom_bound hbinding, ← htext] at hread
    exact ⟨tokens, _, _, _, hread, hspells, rfl, rfl⟩

end ForeignBindings
