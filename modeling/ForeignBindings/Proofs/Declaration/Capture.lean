import ForeignBindings.Proofs.Declaration.Run

/-! Which keywords the scan comes to.  The only way to pass over a keyword is to take it for a part
of the type of an earlier declaration: the scan comes to every keyword that no such type holds. -/

namespace ForeignBindings

/-- The tokens after a keyword open a declaration, and this is its type. -/
def Captures (tokens type : List Token) : Prop :=
  ∃ name opening afterColon left, IsOpening name opening ∧ tokens = opening ++ afterColon ∧
    takeType? .zero afterColon = some (type, left)

/-- On its way through the tokens, the scan makes an attempt whose type holds the keyword. -/
def Captured (pending : Attributes) (tokens : List Token) (keyword : Token) : Prop :=
  ∃ pending' earlier rest type, Runs pending tokens pending' (earlier :: rest) ∧
    earlier.lexeme = .external ∧ Captures rest type ∧ keyword ∈ type

theorem Captured.step {pending : Attributes} {t keyword : Token} {rest : List Token}
    (h : Captured (t.passOn pending) (t.resume rest) keyword) :
    Captured pending (t :: rest) keyword := by
  obtain ⟨pending', earlier, more, type, hruns, hcapture⟩ := h
  exact ⟨pending', earlier, more, type, .step hruns, hcapture⟩

/-! ### The tokens of an attempt -/

/-- The token has no place in a declaration but in its type. -/
structure Token.OnlyInTypes (t : Token) : Prop where
  comment : t.isComment = false
  name : t.lexeme ≠ .identifier
  colon : t.lexeme ≠ .colon
  assign : t.lexeme ≠ .assign
  binding : t.binding? = none

theorem onlyInTypes_keyword {t : Token} (h : t.lexeme = .external) : t.OnlyInTypes :=
  ⟨isComment_eq_false h (by decide), by simp [h], by simp [h], by simp [h],
    by rw [Token.binding?, h]⟩

theorem onlyInTypes_endOfFile {t : Token} (h : t.lexeme = .endOfFile) : t.OnlyInTypes :=
  ⟨isComment_eq_false h (by decide), by simp [h], by simp [h], by simp [h],
    by rw [Token.binding?, h]⟩

theorem ne_of_lexeme {t u : Token} {l : Lexeme} (ht : t.lexeme ≠ l) (hu : u.lexeme = l) :
    t ≠ u := by
  rintro rfl
  exact ht hu

theorem Token.OnlyInTypes.not_mem_comments {t : Token} (ht : t.OnlyInTypes)
    {comments : List Token} (h : ∀ c ∈ comments, c.isComment = true) : t ∉ comments := by
  intro hmem
  have hcomment := h t hmem
  rw [ht.comment] at hcomment
  exact Bool.false_ne_true hcomment

theorem IsOpening.not_mem {t name : Token} {opening : List Token} (h : IsOpening name opening)
    (ht : t.OnlyInTypes) : t ∉ opening := by
  obtain @⟨beforeName, beforeColon, colon, hbeforeName, hname, hbeforeColon, hcolon⟩ := h
  simp [ht.not_mem_comments hbeforeName, ht.not_mem_comments hbeforeColon,
    ne_of_lexeme ht.name hname, ne_of_lexeme ht.colon hcolon]

theorem Attempts.captures_of_mem {file : Text} {attributes : Attributes} {keyword t : Token}
    {used left : List Token} {result : Option Declaration}
    (h : Attempts file attributes keyword used result left) (ht : t.OnlyInTypes)
    (hmem : t ∈ used) : ∃ type, Captures (used ++ left) type ∧ t ∈ type := by
  cases h with
  | unnamed h hleft => exact absurd hmem (ht.not_mem_comments h)
  | uncoloned hbeforeName hname hbeforeColon hleft =>
    apply absurd hmem
    simp [ht.not_mem_comments hbeforeName, ht.not_mem_comments hbeforeColon,
      ne_of_lexeme ht.name hname]
  | untyped hopening htype => exact absurd hmem (hopening.not_mem ht)
  | @unbound opening type comments left name assign hopening hassign htype h hleft =>
    refine ⟨type, ⟨name, opening, _, _, hopening, by simp, htype⟩, ?_⟩
    simpa [hopening.not_mem ht, ne_of_lexeme ht.assign hassign, ht.not_mem_comments h] using hmem
  | @complete opening type comments left name assign binding value hopening hassign htype h
      hbinding =>
    have hne : t ≠ binding := by
      rintro rfl
      rw [ht.binding] at hbinding
      cases hbinding
    refine ⟨type, ⟨name, opening, _, _, hopening, by simp, htype⟩, ?_⟩
    simpa [hopening.not_mem ht, ne_of_lexeme ht.assign hassign, ht.not_mem_comments h, hne]
      using hmem

theorem resumption_suffix {name : Token} {opening afterColon type left : List Token}
    (hopening : IsOpening name opening) (htype : takeType? .zero afterColon = some (type, left)) :
    resumption (opening ++ afterColon) <:+ left := by
  have hskip : skipComments (left.drop 1) <:+ left :=
    (List.dropWhile_suffix _).trans (List.drop_suffix 1 left)
  rw [resumption, attempt_opening _ _ _ hopening, attemptType, htype]
  simp only
  cases h : skipComments (left.drop 1) with
  | nil => exact List.nil_suffix
  | cons binding more =>
    rw [h] at hskip
    simp only
    split
    · exact hskip
    · exact (List.suffix_cons binding more).trans hskip

/-! ### Runs -/

theorem resume_suffix (t : Token) (rest : List Token) : t.resume rest <:+ rest := by
  rw [Token.resume]
  split
  · obtain ⟨used, hused, -⟩ := attempts_attempt [] .empty t rest
    rw [attempt_snd] at hused
    exact ⟨used, hused.symm⟩
  · exact List.suffix_rfl

theorem Runs.suffix {pending pending' : Attributes} {tokens left : List Token}
    (h : Runs pending tokens pending' left) : left <:+ tokens := by
  induction h with
  | refl pending tokens => exact List.suffix_rfl
  | @step pending pending' t rest tokens h ih =>
    exact ih.trans ((resume_suffix t rest).trans (List.suffix_cons t rest))

theorem Runs.total {pending pending₁ pending₂ : Attributes} {tokens left₁ left₂ : List Token}
    (h₁ : Runs pending tokens pending₁ left₁) (h₂ : Runs pending tokens pending₂ left₂) :
    Runs pending₁ left₁ pending₂ left₂ ∨ Runs pending₂ left₂ pending₁ left₁ := by
  induction h₁ with
  | refl pending tokens => exact .inl h₂
  | step h ih =>
    cases h₂ with
    | refl => exact .inr (.step h)
    | step h₂ => exact ih h₂

/-- The scan comes to a keyword, or a type holds it. -/
theorem runs_or_captured (pending : Attributes) {tokens before after : List Token}
    {keyword : Token} (htokens : tokens = before ++ keyword :: after)
    (hkeyword : keyword.lexeme = .external) :
    (∃ pending', Runs pending tokens pending' (keyword :: after)) ∨
      Captured pending tokens keyword := by
  induction hn : tokens.length using Nat.strongRecOn generalizing pending tokens before with
  | ind n ih =>
    cases before with
    | nil => exact .inl ⟨pending, htokens ▸ .refl _ _⟩
    | cons t before =>
      subst htokens
      rw [List.cons_append] at hn ⊢
      have hnext {more : List Token}
          (hmore : t.resume (before ++ keyword :: after) = more ++ keyword :: after) :
          (∃ pending', Runs pending (t :: (before ++ keyword :: after)) pending'
              (keyword :: after)) ∨
            Captured pending (t :: (before ++ keyword :: after)) keyword := by
        have hlt := length_resume_le t (before ++ keyword :: after)
        rw [List.length_cons] at hn
        rcases ih _ (by omega) (t.passOn pending) hmore rfl with ⟨pending', hruns⟩ | hcaptured
        · exact .inl ⟨pending', .step hruns⟩
        · exact .inr hcaptured.step
      by_cases hexternal : t.lexeme = .external
      · obtain ⟨used, hused, hattempt⟩ := attempts_attempt [] .empty t (before ++ keyword :: after)
        rw [attempt_snd] at hused hattempt
        by_cases hmem : keyword ∈ used
        · obtain ⟨type, hcaptures, htype⟩ := hattempt.captures_of_mem (onlyInTypes_keyword hkeyword) hmem
          rw [← hused] at hcaptures
          exact .inr ⟨pending, t, _, type, .refl _ _, hexternal, hcaptures, htype⟩
        · have hresume : t.resume (before ++ keyword :: after) =
              resumption (before ++ keyword :: after) := by rw [Token.resume, if_pos hexternal]
          rcases List.append_eq_append_iff.mp hused with ⟨more, rfl, hleft⟩ | ⟨more, rfl, hleft⟩
          · cases more with
            | nil => exact @hnext [] (hresume.trans hleft.symm)
            | cons k more =>
              obtain ⟨rfl, -⟩ := List.cons.inj hleft
              exact absurd (List.mem_append_right before List.mem_cons_self) hmem
          · exact hnext (hresume.trans hleft)
      · exact hnext (by rw [Token.resume, if_neg hexternal])

/-- Among tokens that are all different, the scan does not come to a keyword that a type holds. -/
theorem not_runs_of_captured {pending pending' : Attributes} {tokens after : List Token}
    {keyword : Token} (hnodup : tokens.Nodup) (h : Captured pending tokens keyword) :
    ¬Runs pending tokens pending' (keyword :: after) := by
  intro hruns
  obtain ⟨pending'', earlier, rest, type, hearlier, hexternal, hcaptures, hmem⟩ := h
  obtain ⟨name, opening, afterColon, left, hopening, rfl, htype⟩ := hcaptures
  obtain ⟨rfl, -⟩ := takeType?_eq_some htype
  have hfirst := hruns.suffix.sublist.nodup hnodup
  have hlater := hearlier.suffix.sublist.nodup hnodup
  have hrest : keyword ∈ opening ++ (type ++ left) := by simp [hmem]
  -- The keyword is not the first token of a state that holds it further behind.
  have hbehind : ¬(earlier :: (opening ++ (type ++ left)) <:+ keyword :: after) := by
    intro hsuffix
    apply (List.nodup_cons.mp hfirst).1
    rcases List.suffix_cons_iff.mp hsuffix with heq | hsuffix
    · exact (List.cons.inj heq).2 ▸ hrest
    · exact hsuffix.subset (List.mem_cons_of_mem _ hrest)
  rcases hruns.total hearlier with hback | hon
  · exact hbehind hback.suffix
  · cases hon with
    | refl => exact hbehind List.suffix_rfl
    | step hon =>
      have hsuffix := hon.suffix
      rw [Token.resume, if_pos hexternal] at hsuffix
      have hleft : keyword ∈ left :=
        (hsuffix.trans (resumption_suffix hopening htype)).subset List.mem_cons_self
      have htypeLeft : (type ++ left).Nodup :=
        (List.nodup_append.mp (List.nodup_cons.mp hlater).2).2.1
      exact (List.nodup_append.mp htypeLeft).2.2 keyword hmem keyword hleft rfl

end ForeignBindings
