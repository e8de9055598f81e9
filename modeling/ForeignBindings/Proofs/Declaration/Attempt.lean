import ForeignBindings.Declaration.Scan

/-! The ways in which an attempt at a declaration can end.  Each is told by the tokens that the
attempt has used, the tokens at which the scan resumes, and the declaration, if there is one. -/

namespace ForeignBindings

/-! ### Comments -/

theorem isComment_eq_false {t : Token} {l : Lexeme} (h : t.lexeme = l) (hl : l ≠ .comment) :
    t.isComment = false := by
  rw [Token.isComment, h]
  exact beq_eq_false_iff_ne.mpr hl

theorem skipComments_append {comments left : List Token}
    (hcomments : ∀ c ∈ comments, c.isComment = true)
    (hleft : ∀ t ∈ left.head?, t.isComment = false) : skipComments (comments ++ left) = left := by
  rw [skipComments, List.dropWhile_append_of_pos hcomments]
  cases left with
  | nil => rfl
  | cons t left => exact List.dropWhile_cons_of_neg (by simp [hleft t (by simp)])

theorem exists_comments (tokens : List Token) :
    ∃ comments, (∀ c ∈ comments, c.isComment = true) ∧
      tokens = comments ++ skipComments tokens ∧
      ∀ t ∈ (skipComments tokens).head?, t.isComment = false := by
  refine ⟨tokens.takeWhile Token.isComment, ?_, ?_, ?_⟩
  · intro c hc
    exact List.all_eq_true.mp List.all_takeWhile c hc
  · exact (List.takeWhile_append_dropWhile ..).symm
  · intro t ht
    have hhead := List.head?_dropWhile_not Token.isComment tokens
    rw [← skipComments, Option.mem_def.mp ht] at hhead
    simpa using hhead

/-! ### Types -/

/-- No token ends a type that begins at the depth: none is the end of the file, and none an equals
sign outside all brackets. -/
def Unended (d : Depth) : List Token → Prop
  | [] => True
  | t :: rest =>
    t.lexeme ≠ .endOfFile ∧ ¬(t.lexeme = .assign ∧ d.atTop) ∧ Unended (t.feed d) rest

theorem takeType?_assign {d : Depth} {t : Token} (h : t.lexeme = .assign) (hd : d.atTop = true)
    (rest : List Token) : takeType? d (t :: rest) = some ([], t :: rest) := by
  rw [takeType?, if_neg (by simp [h]), if_pos ⟨h, hd⟩]

theorem takeType?_append {d : Depth} {type : List Token} (h : Unended d type)
    (left : List Token) :
    takeType? d (type ++ left) =
      (takeType? (type.foldl Token.feed d) left).map fun (more, left) => (type ++ more, left) := by
  induction type generalizing d with
  | nil => simp
  | cons t type ih =>
    obtain ⟨hend, hassign, hrest⟩ := h
    rw [List.cons_append, takeType?, if_neg hend, if_neg hassign, ih hrest, List.foldl_cons,
      Option.map_map]
    rfl

/-- A type is read up to an equals sign outside all brackets. -/
theorem takeType?_eq_some {d : Depth} {tokens type left : List Token}
    (h : takeType? d tokens = some (type, left)) :
    tokens = type ++ left ∧ ∃ assign rest, left = assign :: rest ∧ assign.lexeme = .assign := by
  induction tokens generalizing d type with
  | nil => simp [takeType?] at h
  | cons t rest ih =>
    rw [takeType?] at h
    split at h
    · cases h
    · split at h
      · rename_i hassign
        cases h
        exact ⟨rfl, t, rest, rfl, hassign.1⟩
      · obtain ⟨⟨more, left'⟩, hmore, heq⟩ := Option.map_eq_some_iff.mp h
        cases heq
        obtain ⟨htokens, hleft⟩ := ih hmore
        exact ⟨congrArg (t :: ·) htokens, hleft⟩

/-- No token ends a type that has been read, and every bracket in it is closed. -/
theorem unended_of_takeType? {d : Depth} {tokens type left : List Token}
    (h : takeType? d tokens = some (type, left)) :
    Unended d type ∧ (type.foldl Token.feed d).atTop = true := by
  induction tokens generalizing d type with
  | nil => cases h
  | cons t rest ih =>
    rw [takeType?] at h
    split at h
    · cases h
    · rename_i hend
      split at h
      · rename_i hassign
        cases h
        exact ⟨trivial, hassign.2⟩
      · rename_i hassign
        obtain ⟨⟨more, left'⟩, hmore, heq⟩ := Option.map_eq_some_iff.mp h
        cases heq
        obtain ⟨hunended, htop⟩ := ih hmore
        exact ⟨⟨hend, hassign, hunended⟩, htop⟩

/-! ### Attempts -/

/-- Tokens that open a declaration: a name and a colon, with comments before each. -/
inductive IsOpening (name : Token) : List Token → Prop
  | intro {beforeName beforeColon : List Token} {colon : Token}
      (hbeforeName : ∀ c ∈ beforeName, c.isComment = true) (hname : name.lexeme = .identifier)
      (hbeforeColon : ∀ c ∈ beforeColon, c.isComment = true) (hcolon : colon.lexeme = .colon) :
      IsOpening name (beforeName ++ name :: (beforeColon ++ [colon]))

/-- How an attempt ends: without a name, without a colon, with a type that never ends, without a
binding, or with a declaration.  The tokens are those that it has used and those at which the scan
resumes. -/
inductive Attempts (file : Text) (attributes : Attributes) (keyword : Token) :
    List Token → Option Declaration → List Token → Prop
  | unnamed {comments left : List Token} (hcomments : ∀ c ∈ comments, c.isComment = true)
      (hleft : ∀ t ∈ left.head?, t.isComment = false ∧ t.lexeme ≠ .identifier) :
      Attempts file attributes keyword comments none left
  | uncoloned {beforeName beforeColon left : List Token} {name : Token}
      (hbeforeName : ∀ c ∈ beforeName, c.isComment = true) (hname : name.lexeme = .identifier)
      (hbeforeColon : ∀ c ∈ beforeColon, c.isComment = true)
      (hleft : ∀ t ∈ left.head?, t.isComment = false ∧ t.lexeme ≠ .colon) :
      Attempts file attributes keyword (beforeName ++ name :: beforeColon) none left
  | untyped {opening left : List Token} {name : Token} (hopening : IsOpening name opening)
      (htype : takeType? .zero left = none) : Attempts file attributes keyword opening none left
  | unbound {opening type comments left : List Token} {name assign : Token}
      (hopening : IsOpening name opening) (hassign : assign.lexeme = .assign)
      (htype : takeType? .zero (type ++ assign :: (comments ++ left)) =
        some (type, assign :: (comments ++ left)))
      (hcomments : ∀ c ∈ comments, c.isComment = true)
      (hleft : ∀ t ∈ left.head?, t.isComment = false ∧ t.binding? = none) :
      Attempts file attributes keyword (opening ++ (type ++ assign :: comments)) none left
  | complete {opening type comments left : List Token} {name assign binding : Token} {value : Text}
      (hopening : IsOpening name opening) (hassign : assign.lexeme = .assign)
      (htype : takeType? .zero (type ++ assign :: (comments ++ binding :: left)) =
        some (type, assign :: (comments ++ binding :: left)))
      (hcomments : ∀ c ∈ comments, c.isComment = true) (hbinding : binding.binding? = some value) :
      Attempts file attributes keyword (opening ++ (type ++ assign :: (comments ++ [binding])))
        (some ⟨name.text, value, spannedText type, attributes, file, keyword.start.line,
          keyword.start.column⟩) left

variable (file : Text) (attributes : Attributes) (keyword : Token)

/-- The end of an attempt that has come to a name and a colon. -/
def attemptType (name : Token) (afterColon : List Token) : Option Declaration × List Token :=
  match takeType? .zero afterColon with
  | none => (none, afterColon)
  | some (type, fromAssign) =>
    match skipComments (fromAssign.drop 1) with
    | [] => (none, [])
    | binding :: left =>
      match binding.binding? with
      | none => (none, binding :: left)
      | some value =>
        (some ⟨name.text, value, spannedText type, attributes, file, keyword.start.line,
          keyword.start.column⟩, left)

theorem attempt_opening {name : Token} {opening : List Token} (h : IsOpening name opening)
    (afterColon : List Token) :
    attempt file attributes keyword (opening ++ afterColon) =
      attemptType file attributes keyword name afterColon := by
  obtain @⟨beforeName, beforeColon, colon, hbeforeName, hname, hbeforeColon, hcolon⟩ := h
  have hcolonFirst : ∀ t ∈ (colon :: afterColon).head?, t.isComment = false := by
    simpa using isComment_eq_false hcolon (by decide)
  have hnameFirst : ∀ t ∈ (name :: (beforeColon ++ colon :: afterColon)).head?,
      t.isComment = false := by
    simpa using isComment_eq_false hname (by decide)
  have htokens : beforeName ++ name :: (beforeColon ++ [colon]) ++ afterColon =
      beforeName ++ name :: (beforeColon ++ colon :: afterColon) := by simp
  rw [htokens, attempt, skipComments_append hbeforeName hnameFirst]
  simp only [hname, skipComments_append hbeforeColon hcolonFirst, hcolon, ne_eq, not_true_eq_false,
    if_false]
  rfl

/-- What an attempt makes of a declaration without comments between its parts. -/
theorem attempt_declaration {name colon assign bound : Token} {type : List Token} {binding : Text}
    (hname : name.lexeme = .identifier) (hcolon : colon.lexeme = .colon)
    (htype : Unended .zero type) (htop : (type.foldl Token.feed .zero).atTop = true)
    (hassign : assign.lexeme = .assign) (hbound : bound.lexeme = .string binding)
    (rest : List Token) :
    attempt file attributes keyword (name :: colon :: (type ++ assign :: bound :: rest)) =
      (some ⟨name.text, binding, spannedText type, attributes, file, keyword.start.line,
        keyword.start.column⟩, rest) := by
  have hopening : IsOpening name [name, colon] :=
    @IsOpening.intro name [] [] colon (by simp) hname (by simp) hcolon
  have htake : takeType? .zero (type ++ assign :: bound :: rest) =
      some (type, assign :: bound :: rest) := by
    rw [takeType?_append htype, takeType?_assign hassign htop]
    simp
  have hskip : skipComments (bound :: rest) = bound :: rest :=
    List.dropWhile_cons_of_neg (by simp [isComment_eq_false hbound (by simp)])
  have hvalue : bound.binding? = some binding := by rw [Token.binding?, hbound]
  rw [show name :: colon :: (type ++ assign :: bound :: rest) =
      [name, colon] ++ (type ++ assign :: bound :: rest) from rfl,
    attempt_opening _ _ _ hopening, attemptType, htake]
  simp only [List.drop_succ_cons, List.drop_zero, hskip, hvalue]

theorem attempts_opening {name : Token} {opening : List Token} (h : IsOpening name opening)
    (afterColon : List Token) :
    ∃ used, opening ++ afterColon =
        used ++ (attempt file attributes keyword (opening ++ afterColon)).2 ∧
      Attempts file attributes keyword used
        (attempt file attributes keyword (opening ++ afterColon)).1
        (attempt file attributes keyword (opening ++ afterColon)).2 := by
  rw [attempt_opening file attributes keyword h, attemptType]
  cases htype : takeType? .zero afterColon with
  | none => exact ⟨opening, rfl, .untyped h htype⟩
  | some result =>
    obtain ⟨type, fromAssign⟩ := result
    obtain ⟨rfl, assign, rest, rfl, hassign⟩ := takeType?_eq_some htype
    obtain ⟨comments, hcomments, hrest, hbinding⟩ := exists_comments rest
    simp only [List.drop_succ_cons, List.drop_zero]
    cases hskip : skipComments rest with
    | nil =>
      rw [hskip] at hrest
      rw [hrest] at htype ⊢
      exact ⟨opening ++ (type ++ assign :: comments), by simp,
        .unbound h hassign htype hcomments (by simp)⟩
    | cons binding left =>
      rw [hskip] at hrest hbinding
      rw [hrest] at htype ⊢
      simp only
      cases hvalue : binding.binding? with
      | none =>
        exact ⟨opening ++ (type ++ assign :: comments), by simp,
          .unbound h hassign htype hcomments (by simpa using ⟨hbinding binding rfl, hvalue⟩)⟩
      | some value =>
        exact ⟨opening ++ (type ++ assign :: (comments ++ [binding])), by simp,
          .complete h hassign htype hcomments hvalue⟩

/-- Every attempt ends in one of these ways. -/
theorem attempts_attempt (tokens : List Token) :
    ∃ used, tokens = used ++ (attempt file attributes keyword tokens).2 ∧
      Attempts file attributes keyword used (attempt file attributes keyword tokens).1
        (attempt file attributes keyword tokens).2 := by
  obtain ⟨beforeName, hbeforeName, htokens, hname⟩ := exists_comments tokens
  cases hskip : skipComments tokens with
  | nil =>
    simp only [attempt, hskip]
    rw [hskip] at htokens
    exact ⟨beforeName, htokens, .unnamed hbeforeName (by simp)⟩
  | cons name afterName =>
    rw [hskip] at htokens hname
    by_cases hidentifier : name.lexeme = .identifier
    · obtain ⟨beforeColon, hbeforeColon, hafterName, hcolon⟩ := exists_comments afterName
      have huncoloned {left : List Token} (hafterName : afterName = beforeColon ++ left)
          (hleft : ∀ t ∈ left.head?, t.isComment = false ∧ t.lexeme ≠ .colon) :
          ∃ used, tokens = used ++ left ∧ Attempts file attributes keyword used none left :=
        ⟨beforeName ++ name :: beforeColon, by rw [htokens, hafterName]; simp,
          .uncoloned hbeforeName hidentifier hbeforeColon hleft⟩
      cases hskip' : skipComments afterName with
      | nil =>
        simp only [attempt, hskip, if_neg (not_not_intro hidentifier), hskip']
        rw [hskip'] at hafterName
        exact huncoloned hafterName (by simp)
      | cons colon afterColon =>
        rw [hskip'] at hafterName hcolon
        by_cases hmark : colon.lexeme = .colon
        · have hopening := IsOpening.intro hbeforeName hidentifier hbeforeColon hmark
          have hsplit : tokens = beforeName ++ name :: (beforeColon ++ [colon]) ++ afterColon := by
            rw [htokens, hafterName]
            simp
          rw [hsplit]
          exact attempts_opening file attributes keyword hopening afterColon
        · simp only [attempt, hskip, if_neg (not_not_intro hidentifier), hskip', if_pos hmark]
          exact huncoloned hafterName (by simpa using ⟨hcolon colon rfl, hmark⟩)
    · simp only [attempt, hskip, if_pos hidentifier]
      exact ⟨beforeName, htokens,
        .unnamed hbeforeName (by simpa using ⟨hname name rfl, hidentifier⟩)⟩

end ForeignBindings
