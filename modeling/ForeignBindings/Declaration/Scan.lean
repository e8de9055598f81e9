import ForeignBindings.Declaration.Basic
import ForeignBindings.Token.Lexer

/-! Finding the declarations of a source among its tokens.  A declaration is the keyword, a name, a
colon, a type up to the first equals sign outside all brackets, and a binding; comments may stand
between these.  An attempt that fails resumes at the token that broke it, and one whose type never
ends resumes right after the colon.  Attributes belong to the next declaration only if nothing but
comments and attributes stands between. -/

namespace ForeignBindings

/-- The tokens from the first one that is no comment. -/
def skipComments (tokens : List Token) : List Token := tokens.dropWhile Token.isComment

/-- The tokens before the first equals sign at the top level, and those from it on; `none` if the
file ends first. -/
def takeType? (d : Depth) : List Token → Option (List Token × List Token)
  | [] => none
  | t :: rest =>
    if t.lexeme = .endOfFile then none
    else if t.lexeme = .assign ∧ d.atTop then some ([], t :: rest)
    else (takeType? (t.feed d) rest).map fun (type, left) => (t :: type, left)

/-- The text of a token in a type: a comment counts as one blank. -/
def Token.plainText (t : Token) : Text := if t.isComment then [' '] else t.text

/-- The text that tokens span, with comments blanked out. -/
def spannedText : List Token → Text
  | [] => []
  | t :: rest => (t.plainText ++ rest.flatMap fun u => u.leading ++ u.plainText).trim

/-- What a token binds a declaration to. -/
def Token.binding? (t : Token) : Option Text :=
  match t.lexeme with
  | .string contents => some contents
  | .char contents => some contents
  | .identifier => some t.text
  | _ => none

/-- The declaration that the tokens after a keyword make, if they do, and the tokens at which the
scan resumes. -/
def attempt (file : Text) (attributes : Attributes) (keyword : Token) (tokens : List Token) :
    Option Declaration × List Token :=
  match skipComments tokens with
  | [] => (none, [])
  | name :: afterName =>
    if name.lexeme ≠ .identifier then (none, name :: afterName)
    else match skipComments afterName with
      | [] => (none, [])
      | colon :: afterColon =>
        if colon.lexeme ≠ .colon then (none, colon :: afterColon)
        else match takeType? .zero afterColon with
          | none => (none, afterColon)
          | some (type, fromAssign) =>
            match skipComments (fromAssign.drop 1) with
            | [] => (none, [])
            | binding :: left =>
              match binding.binding? with
              | none => (none, binding :: left)
              | some value =>
                (some ⟨name.text, value, spannedText type, attributes, file, keyword.start.line,
                  keyword.start.column⟩, left)

theorem length_skipComments_le (tokens : List Token) :
    (skipComments tokens).length ≤ tokens.length :=
  (List.dropWhile_sublist _).length_le

theorem length_takeType?_le {d : Depth} {tokens type left : List Token}
    (h : takeType? d tokens = some (type, left)) : left.length ≤ tokens.length := by
  induction tokens generalizing d type left with
  | nil => simp [takeType?] at h
  | cons t rest ih =>
    simp only [takeType?] at h
    split at h
    · simp at h
    · split at h
      · simp only [Option.some.injEq, Prod.mk.injEq] at h
        simp [← h.2]
      · simp only [Option.map_eq_some_iff, Prod.mk.injEq] at h
        obtain ⟨⟨_, left'⟩, hrest, _, rfl⟩ := h
        have := ih hrest
        simp only [List.length_cons]
        omega

/-- An attempt never gives back more tokens than it was given. -/
theorem length_attempt_le (file : Text) (attributes : Attributes) (keyword : Token)
    (tokens : List Token) : (attempt file attributes keyword tokens).2.length ≤ tokens.length := by
  have hname := length_skipComments_le tokens
  unfold attempt
  split
  · simp
  · rename_i name afterName heq
    rw [heq, List.length_cons] at hname
    split
    · simpa using hname
    · have hcolon := length_skipComments_le afterName
      split
      · simp
      · rename_i colon afterColon heq'
        rw [heq', List.length_cons] at hcolon
        split
        · simp only [List.length_cons]
          omega
        · split
          · simp only
            omega
          · rename_i type fromAssign htype
            have hleft := length_takeType?_le htype
            have hbinding := length_skipComments_le (fromAssign.drop 1)
            rw [List.length_drop] at hbinding
            split
            · simp
            · rename_i binding left heq''
              rw [heq'', List.length_cons] at hbinding
              split <;> simp only [List.length_cons] <;> omega

/-- The declarations among tokens, when `pending` are the attributes read since the last token that
was neither a comment nor an attribute. -/
def declarations (file : Text) (pending : Attributes) : List Token → List Declaration
  | [] => []
  | t :: rest =>
    match t.lexeme with
    | .comment => declarations file pending rest
    | .attribute decorator => declarations file (pending.apply decorator) rest
    | .external =>
      let result := attempt file pending t rest
      result.1.toList ++ declarations file .empty result.2
    | _ => declarations file .empty rest
termination_by tokens => tokens.length
decreasing_by
  · exact Nat.lt_succ_self _
  · exact Nat.lt_succ_self _
  · exact Nat.lt_succ_of_le (length_attempt_le file pending t rest)
  · exact Nat.lt_succ_self _

/-- The declarations of a source, in the order of the text. -/
def scan (file source : Text) : List Declaration := declarations file .empty (tokenize source)

end ForeignBindings
