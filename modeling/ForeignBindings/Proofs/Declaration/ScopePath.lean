import ForeignBindings.Proofs.Declaration.Setting

/-! The spellings of a scope.  Its segments are strings, which stand as arguments of the annotation
or as the elements of a tuple, the only argument.  Both spell the same path, whatever the strings
hold, if there are two segments at least: a single string in parentheses is no tuple, and the
argument is the segment as it is written. -/

namespace ForeignBindings

open Text Lexer

def scopeText (args : List Text) : Text :=
  '@' :: ("scope".toList ++ enclosed '(' ')' (join commaBlank args))

def tupleText (segments : List Text) : Text :=
  enclosed '(' ')' (join commaBlank (segments.map stringLiteral))

/-- Where a token starts with the text, in whichever source, it is one annotation, and this sets the
scope to the path and changes nothing else. -/
def SpellsScope (text : Text) (path : List Text) : Prop :=
  ∀ (leading : Text) (p : Position) (more : Text), ∃ decorator,
    tokensFrom leading p (text ++ more) =
      ⟨.attribute decorator, leading, text, p⟩ :: tokensFrom [] (p.advance text) more ∧
    ∀ attributes : Attributes, attributes.apply decorator = { attributes with scope := some path }

theorem SpellsScope.unique {text : Text} {path path' : List Text} (h : SpellsScope text path)
    (h' : SpellsScope text path') : path = path' := by
  obtain ⟨decorator, htokens, happly⟩ := h [] .start []
  obtain ⟨decorator', htokens', happly'⟩ := h' [] .start []
  have htoken := (List.cons.inj (htokens.symm.trans htokens')).1
  obtain rfl : decorator = decorator' := Lexeme.attribute.inj (congrArg Token.lexeme htoken)
  have hscope := congrArg Attributes.scope ((happly .empty).symm.trans (happly' .empty))
  exact Option.some.inj hscope

theorem spellsScope_scopeText {args : List Text} (h : ∀ arg ∈ args, IsPart arg) :
    SpellsScope (scopeText args) (Attributes.scopePath args) := by
  intro leading p more
  have hread := read_attribute (@attribute?_parts "scope".toList args rfl rfl h more)
  have hmark : Solid '@' := rfl
  exact ⟨⟨"scope".toList, some args⟩, tokensFrom_token hmark hread leading p, fun _ => rfl⟩

theorem isPart_tupleText {segments : List Text} (h : ∀ s ∈ segments, Quotable s) :
    IsPart (tupleText segments) where
  begins := begins_cons rfl
  finishes := finishes_concat ('(' :: join commaBlank (segments.map stringLiteral)) rfl
  undivided := undivided_enclosed (standalone_join (isPart_strings h))
    (isBalanced_join (isPart_strings h)) Pair.round (by decide)

/-- A tuple of two elements or more is taken apart, anything else in parentheses is not. -/
theorem scopePath_tupleText {segments : List Text} (h : ∀ s ∈ segments, Quotable s) :
    Attributes.scopePath [tupleText segments] =
      if 2 ≤ segments.length then segments else [tupleText segments] := by
  have hunquoted {quote : Char} (hquote : '(' ≠ quote) :
      (tupleText segments).enclosedBy quote quote = false :=
    enclosedBy_eq_false (begins_cons hquote)
  have hunquote : unquote (tupleText segments) = tupleText segments := by
    rw [unquote, if_neg]
    simp [hunquoted]
  have hparts : ((tupleText segments).inner 1).splitTop [','] = segments.map stringLiteral := by
    rw [tupleText, inner_enclosed, splitTop_join (isPart_strings h)]
  have henclosed : (tupleText segments).enclosedBy '(' ')' = true := enclosedBy_enclosed ..
  simp only [Attributes.scopePath, henclosed, if_true, hparts, List.length_map]
  split
  · rw [map_unquote_stringLiteral, if_pos (by omega)]
  · rw [if_neg (by omega), List.map_singleton, hunquote]

/-- As arguments, the segments are the path; as the elements of a tuple they are it if there are two
at least.  In the parentheses, a single segment keeps its quotes and is left in them. -/
theorem scope_of_spellings {segments : List Text} (h : ∀ s ∈ segments, Quotable s) :
    SpellsScope (scopeText (segments.map stringLiteral)) segments ∧
      (2 ≤ segments.length → SpellsScope (scopeText [tupleText segments]) segments) ∧
      (segments.length = 1 →
        SpellsScope (scopeText [tupleText segments]) [tupleText segments]) := by
  have hlist := spellsScope_scopeText (isPart_strings h)
  have htuple := spellsScope_scopeText (List.forall_mem_singleton.mpr (isPart_tupleText h))
  rw [Attributes.scopePath_stringLiteral] at hlist
  rw [scopePath_tupleText h] at htuple
  refine ⟨hlist, fun hlength => ?_, fun hlength => ?_⟩
  · rwa [if_pos hlength] at htuple
  · rwa [if_neg (by omega)] at htuple

theorem scope_of_tuple_with_delimiters :
    scopeText [tupleText ["a, (b".toList, " c)".toList]] =
        "@scope((\"a, (b\", \" c)\"))".toList ∧
      (∀ s ∈ ["a, (b".toList, " c)".toList], Quotable s) ∧
      2 ≤ ["a, (b".toList, " c)".toList].length ∧
      SpellsScope (scopeText [tupleText ["a, (b".toList, " c)".toList]])
        ["a, (b".toList, " c)".toList] :=
  ⟨by decide, by decide, by decide, (scope_of_spellings (by decide)).2.1 (by decide)⟩

/-- The one string in the parentheses of `@scope(("window"))` is no tuple: the scope is not the path
of the string. -/
theorem not_spellsScope_single :
    scopeText [tupleText ["window".toList]] = "@scope((\"window\"))".toList ∧
      ¬SpellsScope (scopeText [tupleText ["window".toList]]) ["window".toList] := by
  have hsegments : ∀ s ∈ ["window".toList], Quotable s := by decide
  have hpart := isPart_tupleText hsegments
  have hspelled := spellsScope_scopeText (List.forall_mem_singleton.mpr hpart)
  refine ⟨by decide, fun h => ?_⟩
  have hpath := h.unique hspelled
  rw [scopePath_tupleText hsegments] at hpath
  exact absurd hpath (by decide)

end ForeignBindings
