import Mathlib.Data.List.DropRight
import ForeignBindings.Proofs.Declaration.Run
import ForeignBindings.Proofs.Token.Stream

/-! The scope of attributes.  A declaration has the attributes of the annotations that stand right
before its keyword, and no others: at every state of the scan, what is pending is what the last
annotations among the tokens before that state say. -/

namespace ForeignBindings

def Token.decorator? (t : Token) : Option Decorator :=
  match t.lexeme with
  | .attribute decorator => some decorator
  | _ => none

/-- A token that may stand between an attribute and the declaration that it belongs to. -/
def Token.isAnnotation (t : Token) : Bool := t.isComment || t.decorator?.isSome

/-- What the longest run of annotations at the end of the tokens says. -/
def pendingAfter (tokens : List Token) : Attributes :=
  Attributes.empty.applyAll ((tokens.rtakeWhile Token.isAnnotation).filterMap Token.decorator?)

variable {t : Token} {before comments : List Token}

theorem isAnnotation_eq_false {l : Lexeme} (h : t.lexeme = l) (hcomment : l ≠ .comment)
    (hattribute : ∀ decorator, l ≠ .attribute decorator) : t.isAnnotation = false := by
  have hnone : t.decorator? = none := by
    rw [Token.decorator?]
    split
    · rename_i decorator hdecorator
      exact absurd (h.symm.trans hdecorator) (hattribute decorator)
    · rfl
  rw [Token.isAnnotation, isComment_eq_false h hcomment, hnone]
  rfl

theorem pendingAfter_comment (h : t.isComment = true) :
    pendingAfter (before ++ [t]) = pendingAfter before := by
  have hlexeme : t.lexeme = .comment := eq_of_beq h
  have hannotation : t.isAnnotation = true := by rw [Token.isAnnotation, h, Bool.true_or]
  have hnone : t.decorator? = none := by rw [Token.decorator?, hlexeme]
  rw [pendingAfter, List.rtakeWhile_concat_pos _ _ _ hannotation, List.filterMap_append]
  simp [hnone, pendingAfter]

theorem pendingAfter_attribute {decorator : Decorator} (h : t.lexeme = .attribute decorator) :
    pendingAfter (before ++ [t]) = (pendingAfter before).apply decorator := by
  have hsome : t.decorator? = some decorator := by rw [Token.decorator?, h]
  have hannotation : t.isAnnotation = true := by
    rw [Token.isAnnotation, hsome, Option.isSome_some, Bool.or_true]
  rw [pendingAfter, List.rtakeWhile_concat_pos _ _ _ hannotation, List.filterMap_append]
  simp [hsome, pendingAfter, Attributes.applyAll]

theorem pendingAfter_comments (h : ∀ c ∈ comments, c.isComment = true) :
    pendingAfter (before ++ comments) = pendingAfter before := by
  induction comments generalizing before with
  | nil => rw [List.append_nil]
  | cons c comments ih =>
    rw [List.append_cons, ih fun d hd => h d (by simp [hd]), pendingAfter_comment (h c (by simp))]

theorem pendingAfter_other {tokens : List Token} (htokens : t :: comments <:+ tokens)
    (ht : t.isAnnotation = false) (h : ∀ c ∈ comments, c.isComment = true) :
    pendingAfter tokens = .empty := by
  obtain ⟨before, rfl⟩ := htokens
  rw [List.append_cons, pendingAfter_comments h, pendingAfter,
    List.rtakeWhile_concat_neg _ _ _ (by simp [ht])]
  rfl

/-! ### Attempts -/

theorem Token.binding?_isSome {value : Text} (h : t.binding? = some value) :
    t.isAnnotation = false := by
  rw [Token.binding?] at h
  split at h
  · exact isAnnotation_eq_false ‹_› (by simp) (by simp)
  · exact isAnnotation_eq_false ‹_› (by simp) (by simp)
  · exact isAnnotation_eq_false ‹_› (by simp) (by simp)
  · cases h

/-- Whatever way an attempt ends, it leaves nothing pending. -/
theorem Attempts.pendingAfter_used {file : Text} {attributes : Attributes} {keyword : Token}
    {used left : List Token} {result : Option Declaration}
    (h : Attempts file attributes keyword used result left)
    (hkeyword : keyword.lexeme = .external) (before : List Token) :
    pendingAfter (before ++ keyword :: used) = .empty := by
  cases h with
  | unnamed hcomments hleft =>
    exact pendingAfter_other ⟨before, rfl⟩ (isAnnotation_eq_false hkeyword (by simp) (by simp))
      hcomments
  | @uncoloned beforeName _ _ _ hbeforeName hname hbeforeColon hleft =>
    exact pendingAfter_other ⟨before ++ keyword :: beforeName, by simp⟩
      (isAnnotation_eq_false hname (by simp) (by simp)) hbeforeColon
  | @untyped _ _ name hopening htype =>
    obtain @⟨beforeName, beforeColon, colon, -, -, -, hcolon⟩ := hopening
    exact @pendingAfter_other _ [] _
      ⟨before ++ keyword :: (beforeName ++ name :: beforeColon), by simp⟩
      (isAnnotation_eq_false hcolon (by simp) (by simp)) (by simp)
  | @unbound opening type _ _ _ _ hopening hassign htype hcomments hleft =>
    exact pendingAfter_other ⟨before ++ keyword :: (opening ++ type), by simp⟩
      (isAnnotation_eq_false hassign (by simp) (by simp)) hcomments
  | @complete opening type comments _ _ assign _ _ hopening hassign htype hcomments hbinding =>
    exact @pendingAfter_other _ [] _
      ⟨before ++ keyword :: (opening ++ (type ++ assign :: comments)), by simp⟩
      (Token.binding?_isSome hbinding) (by simp)

/-! ### Runs -/

theorem pendingAfter_step (t : Token) (rest before : List Token) :
    ∃ used, t :: rest = used ++ t.resume rest ∧
      t.passOn (pendingAfter before) = pendingAfter (before ++ used) := by
  by_cases hexternal : t.lexeme = .external
  · obtain ⟨used, hused, hattempt⟩ := attempts_attempt [] .empty t rest
    rw [attempt_snd] at hused
    refine ⟨t :: used, ?_, ?_⟩
    · rw [Token.resume, if_pos hexternal, List.cons_append, ← hused]
    · rw [hattempt.pendingAfter_used hexternal before, Token.passOn, hexternal]
  · refine ⟨[t], ?_, ?_⟩
    · rw [Token.resume, if_neg hexternal, List.singleton_append]
    · rw [Token.passOn]
      split
      · exact (pendingAfter_comment (beq_iff_eq.mpr ‹_›)).symm
      · exact (pendingAfter_attribute ‹_›).symm
      · rename_i hcomment hattribute
        exact (@pendingAfter_other _ [] _ ⟨before, rfl⟩
          (isAnnotation_eq_false rfl hcomment hattribute) (by simp)).symm

/-- At every state of the scan, what is pending is what the annotations right before it say. -/
theorem Runs.pending_eq {pending pending' : Attributes} {tokens left : List Token}
    (h : Runs pending tokens pending' left) {before : List Token}
    (hpending : pending = pendingAfter before) :
    ∃ used, tokens = used ++ left ∧ pending' = pendingAfter (before ++ used) := by
  induction h generalizing before with
  | refl pending tokens => exact ⟨[], rfl, by rw [hpending, List.append_nil]⟩
  | @step pending pending' t rest tokens h ih =>
    obtain ⟨used, hused, hstep⟩ := pendingAfter_step t rest before
    obtain ⟨more, hmore, heq⟩ := ih (hpending ▸ hstep)
    exact ⟨used ++ more, by rw [hused, hmore, List.append_assoc],
      by rw [heq, List.append_assoc]⟩

/-- The attributes of a declaration are what the decorators say, in order, in the longest run of
attributes and comments right before its keyword, the only token at its place. -/
theorem attributes_of_mem_scan {file source : Text} {d : Declaration} (h : d ∈ scan file source) :
    ∃ before keyword after, tokenize source = before ++ keyword :: after ∧
      keyword.lexeme = .external ∧ (attempt file d.attributes keyword after).1 = some d ∧
      (∀ t ∈ tokenize source,
        t.start.line = d.line ∧ t.start.column = d.column ↔ t = keyword) ∧
      d.attributes = Attributes.empty.applyAll
        ((before.rtakeWhile Token.isAnnotation).filterMap Token.decorator?) := by
  obtain ⟨pending, keyword, after, hruns, hdeclared⟩ := mem_declarations_iff.mp h
  obtain ⟨hexternal, hattributes, hline, hcolumn⟩ := declared_eq_some hdeclared
  have hstart : Attributes.empty = pendingAfter [] := rfl
  obtain ⟨before, htokens, hpending⟩ := hruns.pending_eq hstart
  have hkeyword : keyword ∈ tokenize source := by simp [htokens]
  refine ⟨before, keyword, after, htokens, hexternal, ?_, ?_, ?_⟩
  · rwa [declared, if_pos hexternal, ← hattributes] at hdeclared
  · intro t ht
    constructor
    · intro hplace
      exact eq_of_start_eq ht hkeyword (hplace.1.trans hline) (hplace.2.trans hcolumn)
    · rintro rfl
      exact ⟨hline.symm, hcolumn.symm⟩
  · rw [hattributes, hpending, List.nil_append, pendingAfter]

/-- After an attempt whose type never ends, its attributes are gone and those in the type count. -/
theorem attributes_after_open_type :
    ∃ d ∈ scan [] "@send external x: (@val external a: int = b".toList,
      d.attributes = { Attributes.empty with val := true } ∧
      ∃ before keyword after,
        tokenize "@send external x: (@val external a: int = b".toList = before ++ keyword :: after ∧
        keyword.start.column = 25 ∧
        d.attributes = Attributes.empty.applyAll
          ((before.rtakeWhile Token.isAnnotation).filterMap Token.decorator?) := by
  have hmem : (⟨['a'], ['b'], "int".toList, { Attributes.empty with val := true }, [], 1, 25⟩ :
      Declaration) ∈ scan [] "@send external x: (@val external a: int = b".toList := by
    decide +kernel
  obtain ⟨before, keyword, after, htokens, -, -, hplace, hattributes⟩ := attributes_of_mem_scan hmem
  have hkeyword := (hplace keyword (htokens ▸ List.mem_append_right _ List.mem_cons_self)).mpr rfl
  exact ⟨_, hmem, rfl, before, keyword, after, htokens, hkeyword.2, hattributes⟩

end ForeignBindings
