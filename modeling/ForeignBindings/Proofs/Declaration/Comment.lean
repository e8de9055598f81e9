import Mathlib.Data.List.Forall2
import Mathlib.Data.Option.Basic
import ForeignBindings.Proofs.Declaration.Run

/-! Comments between declarations and in them.  The scan of tokens and that of the same tokens
without their comments go through the same states: whatever the scan does with a token that is no
comment, it does with it after all comments are gone.  So both find the same declarations, and only
the texts of their types can differ. -/

namespace ForeignBindings

/-- The tokens that are no comments. -/
def withoutComments (tokens : List Token) : List Token := tokens.filter fun t => !t.isComment

/-- The declarations have all in common but the texts of their types. -/
structure Declaration.AgreesButType (d e : Declaration) : Prop where
  name : d.name = e.name
  binding : d.binding = e.binding
  attributes : d.attributes = e.attributes
  file : d.file = e.file
  line : d.line = e.line
  column : d.column = e.column

variable {t : Token} {rest : List Token}

theorem withoutComments_comment (h : t.isComment = true) :
    withoutComments (t :: rest) = withoutComments rest :=
  List.filter_cons_of_neg (by simp [h])

theorem withoutComments_cons (h : t.isComment = false) :
    withoutComments (t :: rest) = t :: withoutComments rest :=
  List.filter_cons_of_pos (by simp [h])

/-! ### Attempts -/

/-- The first token that is no comment is the first one that is left without comments. -/
theorem skipComments_withoutComments (tokens : List Token) :
    skipComments tokens = [] ∧ skipComments (withoutComments tokens) = [] ∨
      ∃ t rest, t.isComment = false ∧ skipComments tokens = t :: rest ∧
        skipComments (withoutComments tokens) = t :: withoutComments rest := by
  induction tokens with
  | nil => exact .inl ⟨rfl, rfl⟩
  | cons t rest ih =>
    by_cases h : t.isComment = true
    · rwa [withoutComments_comment h, skipComments, List.dropWhile_cons_of_pos h]
    · rw [Bool.not_eq_true] at h
      refine .inr ⟨t, rest, h, List.dropWhile_cons_of_neg (by simp [h]), ?_⟩
      rw [withoutComments_cons h]
      exact List.dropWhile_cons_of_neg (by simp [h])

/-- A comment neither ends a type nor changes the depth in it. -/
theorem takeType?_withoutComments (d : Depth) (tokens : List Token) :
    takeType? d (withoutComments tokens) = (takeType? d tokens).map fun (type, left) =>
      (withoutComments type, withoutComments left) := by
  induction tokens generalizing d with
  | nil => rfl
  | cons t rest ih =>
    by_cases h : t.isComment = true
    · have hlexeme : t.lexeme = .comment := eq_of_beq h
      have hfeed : t.feed d = d := by rw [Token.feed, hlexeme]
      rw [withoutComments_comment h, ih, takeType?, if_neg (by simp [hlexeme]),
        if_neg (by simp [hlexeme]), hfeed]
      cases takeType? d rest with
      | none => rfl
      | some result => simp only [Option.map_some, withoutComments_comment h]
    · rw [Bool.not_eq_true] at h
      rw [withoutComments_cons h, takeType?, takeType?]
      split
      · rfl
      · split
        · exact congrArg (fun left => some ([], left)) (withoutComments_cons h).symm
        · rw [ih]
          cases takeType? (t.feed d) rest with
          | none => rfl
          | some result => simp only [Option.map_some, withoutComments_cons h]

/-- The results of two attempts are the same up to comments and the text of the type. -/
def AgreeUpToComments (result result' : Option Declaration × List Token) : Prop :=
  Option.Rel Declaration.AgreesButType result.1 result'.1 ∧ result'.2 = withoutComments result.2

variable (file : Text) (attributes : Attributes) (keyword : Token)

theorem attemptType_withoutComments (name : Token) (afterColon : List Token) :
    AgreeUpToComments (attemptType file attributes keyword name afterColon)
      (attemptType file attributes keyword name (withoutComments afterColon)) := by
  rw [attemptType, attemptType, takeType?_withoutComments]
  cases htype : takeType? .zero afterColon with
  | none => exact ⟨.none, rfl⟩
  | some result =>
    obtain ⟨type, left⟩ := result
    obtain ⟨-, assign, afterAssign, rfl, hassign⟩ := takeType?_eq_some htype
    simp only [Option.map_some, withoutComments_cons (isComment_eq_false hassign (by decide)),
      List.drop_succ_cons, List.drop_zero]
    rcases skipComments_withoutComments afterAssign with
      ⟨hskip, hskip'⟩ | ⟨binding, afterBinding, hbinding, hskip, hskip'⟩
    · rw [hskip, hskip']
      exact ⟨.none, rfl⟩
    rw [hskip, hskip']
    dsimp only
    cases binding.binding? with
    | none => exact ⟨.none, (withoutComments_cons hbinding).symm⟩
    | some value => exact ⟨.some ⟨rfl, rfl, rfl, rfl, rfl, rfl⟩, rfl⟩

theorem attempt_withoutComments (tokens : List Token) :
    AgreeUpToComments (attempt file attributes keyword tokens)
      (attempt file attributes keyword (withoutComments tokens)) := by
  rw [attempt, attempt]
  rcases skipComments_withoutComments tokens with
    ⟨hskip, hskip'⟩ | ⟨name, afterName, hname, hskip, hskip'⟩
  · rw [hskip, hskip']
    exact ⟨.none, rfl⟩
  rw [hskip, hskip']
  dsimp only
  split
  · exact ⟨.none, (withoutComments_cons hname).symm⟩
  rcases skipComments_withoutComments afterName with
    ⟨hskip, hskip'⟩ | ⟨colon, afterColon, hcolon, hskip, hskip'⟩
  · rw [hskip, hskip']
    exact ⟨.none, rfl⟩
  rw [hskip, hskip']
  dsimp only
  split
  · exact ⟨.none, (withoutComments_cons hcolon).symm⟩
  · exact attemptType_withoutComments file attributes keyword name afterColon

/-! ### The scan -/

theorem declared_withoutComments (pending : Attributes) (t : Token) (rest : List Token) :
    Option.Rel Declaration.AgreesButType (declared file pending t rest)
      (declared file pending t (withoutComments rest)) := by
  rw [declared, declared]
  split
  · exact (attempt_withoutComments file pending t rest).1
  · exact .none

theorem resume_withoutComments (t : Token) (rest : List Token) :
    t.resume (withoutComments rest) = withoutComments (t.resume rest) := by
  rw [Token.resume, Token.resume]
  split
  · exact (attempt_withoutComments [] .empty ⟨.external, [], [], .start⟩ rest).2
  · rfl

theorem forall₂_toList {α β : Type} {R : α → β → Prop} {a : Option α} {b : Option β}
    (h : Option.Rel R a b) : List.Forall₂ R a.toList b.toList := by
  cases h with
  | some h => exact .cons h .nil
  | none => exact .nil

/-- The declarations among tokens and those among the same tokens without comments are the same, one
by one, up to the texts of their types. -/
theorem declarations_withoutComments (pending : Attributes) (tokens : List Token) :
    List.Forall₂ Declaration.AgreesButType (declarations file pending tokens)
      (declarations file pending (withoutComments tokens)) := by
  induction pending, tokens using induction_resume with
  | nil pending => simp [declarations, withoutComments]
  | cons pending t rest ih =>
    rw [declarations_cons]
    by_cases h : t.isComment = true
    · -- a comment declares nothing, keeps what is pending and is gone from the other tokens
      have hlexeme : t.lexeme = .comment := eq_of_beq h
      rw [Token.passOn, Token.resume, hlexeme] at ih ⊢
      rw [declared, hlexeme, withoutComments_comment h]
      exact ih
    · rw [Bool.not_eq_true] at h
      rw [withoutComments_cons h, declarations_cons, resume_withoutComments]
      exact List.rel_append (forall₂_toList (declared_withoutComments file pending t rest)) ih

/-- Comments change nothing about what a source declares but the texts of types: its tokens, with
and without comments, give equally many declarations, which agree one by one in their names, their
bindings, their attributes and their places. -/
theorem agree_filter_comments (source : Text) :
    List.Forall₂ Declaration.AgreesButType (declarations file .empty (tokenize source))
      (declarations file .empty ((tokenize source).filter fun t => !t.isComment)) :=
  declarations_withoutComments file .empty (tokenize source)

end ForeignBindings
