import ForeignBindings.Proofs.Declaration.Capture

/-! The progress of the scan.  The scan is a loop over tokens: an iteration reads the current token,
or makes an attempt that looks as far ahead as the end of the file and then may come back.  In every
case the loop goes on behind the token at which the iteration began, and not beyond the end of the
file.  So it comes to the end, with at most one declaration for each keyword. -/

namespace ForeignBindings

/-- The last token is the end of the file, and no other is. -/
def EndsOnce (tokens : List Token) : Prop :=
  ∃ body last, tokens = body ++ [last] ∧ last.lexeme = .endOfFile ∧
    ∀ t ∈ body, t.lexeme ≠ .endOfFile

/-- What the loop knows: the index of the current token, the attributes that are pending, and the
declarations found so far. -/
structure ScanState where
  position : Nat
  pending : Attributes
  found : List Declaration

namespace ScanState

def start : ScanState := ⟨0, .empty, []⟩

/-- The state after one iteration; there is none at the end of the file. -/
def next? (file : Text) (tokens : List Token) (s : ScanState) : Option ScanState :=
  match tokens.drop s.position with
  | [] => none
  | t :: rest =>
    if t.lexeme = .endOfFile then none
    else some
      { position := tokens.length - (t.resume rest).length
        pending := t.passOn s.pending
        found := s.found ++ (declared file s.pending t rest).toList }

/-- So many iterations lead from one state to another. -/
inductive Iterates (file : Text) (tokens : List Token) : Nat → ScanState → ScanState → Prop
  | zero (s : ScanState) : Iterates file tokens 0 s s
  | succ {n : Nat} {s s' last : ScanState} (h : s.next? file tokens = some s')
      (hlater : Iterates file tokens n s' last) : Iterates file tokens (n + 1) s last

end ScanState

/-! ### The end of the file -/

theorem Unended.ne_endOfFile {d : Depth} {type : List Token} (h : Unended d type) :
    ∀ t ∈ type, t.lexeme ≠ .endOfFile := by
  induction type generalizing d with
  | nil => simp
  | cons t type ih => exact List.forall_mem_cons.mpr ⟨h.1, ih h.2.2⟩

/-- Whatever way an attempt ends, it does not use up the end of the file: no type holds it. -/
theorem Attempts.ne_endOfFile {file : Text} {attributes : Attributes} {keyword : Token}
    {used left : List Token} {result : Option Declaration}
    (h : Attempts file attributes keyword used result left) :
    ∀ t ∈ used, t.lexeme ≠ .endOfFile := by
  intro t hmem hend
  obtain ⟨type, ⟨_, _, _, _, -, -, htype⟩, ht⟩ :=
    h.captures_of_mem (onlyInTypes_endOfFile hend) hmem
  exact (unended_of_takeType? htype).1.ne_endOfFile t ht hend

namespace EndsOnce

variable {tokens used left : List Token} {t : Token}

theorem length_pos (h : EndsOnce tokens) : 0 < tokens.length := by
  obtain ⟨body, last, rfl, -⟩ := h
  simp

theorem of_append (h : EndsOnce (used ++ left)) (hused : ∀ t ∈ used, t.lexeme ≠ .endOfFile) :
    EndsOnce left := by
  obtain ⟨body, last, heq, hlast, hbody⟩ := h
  rcases List.append_eq_append_iff.mp heq with ⟨more, rfl, rfl⟩ | ⟨more, rfl, hmore⟩
  · exact ⟨more, last, rfl, hlast, fun t ht => hbody t (List.mem_append_right used ht)⟩
  · cases more with
    | nil => exact ⟨[], last, hmore.symm, hlast, by simp⟩
    | cons c more =>
      obtain ⟨rfl, -⟩ := List.cons.inj hmore
      exact absurd hlast (hused last (by simp))

theorem resume (h : EndsOnce left) (t : Token) : EndsOnce (t.resume left) := by
  rw [Token.resume]
  split
  · obtain ⟨used, hused, hattempt⟩ := attempts_attempt [] .empty t left
    rw [attempt_snd] at hused
    rw [hused] at h
    exact h.of_append hattempt.ne_endOfFile
  · exact h

/-- At an index before the last stands a token with the end of the file behind it. -/
theorem exists_drop {position : Nat} (h : EndsOnce tokens) (hlt : position < tokens.length - 1) :
    ∃ t rest, tokens.drop position = t :: rest ∧ t.lexeme ≠ .endOfFile ∧ EndsOnce rest := by
  obtain ⟨body, last, rfl, hlast, hbody⟩ := h
  have hposition : position < body.length := by simpa using hlt
  refine ⟨body[position], body.drop (position + 1) ++ [last], ?_,
    hbody _ (List.getElem_mem hposition), body.drop (position + 1), last, rfl, hlast, ?_⟩
  · rw [List.drop_append_of_le_length (Nat.le_of_lt hposition), List.drop_eq_getElem_cons hposition,
      List.cons_append]
  · exact fun t ht => hbody t (List.mem_of_mem_drop ht)

end EndsOnce

/-! ### One iteration -/

namespace ScanState

variable {file : Text} {tokens rest : List Token} {t : Token} {s s' : ScanState}

theorem next?_of_drop (hdrop : tokens.drop s.position = t :: rest) (ht : t.lexeme ≠ .endOfFile) :
    s.next? file tokens = some
      { position := tokens.length - (t.resume rest).length
        pending := t.passOn s.pending
        found := s.found ++ (declared file s.pending t rest).toList } := by
  rw [next?, hdrop]
  exact if_neg ht

theorem length_of_drop (hdrop : tokens.drop s.position = t :: rest) :
    tokens.length = s.position + 1 + rest.length := by
  have hlength := congrArg List.length hdrop
  rw [List.length_drop, List.length_cons] at hlength
  omega

theorem drop_resume (hdrop : tokens.drop s.position = t :: rest) :
    tokens.drop (tokens.length - (t.resume rest).length) = t.resume rest := by
  have hsuffix : t.resume rest <:+ tokens := by
    apply ((resume_suffix t rest).trans (List.suffix_cons t rest)).trans
    rw [← hdrop]
    exact List.drop_suffix ..
  exact (List.suffix_iff_eq_drop.mp hsuffix).symm

theorem next?_eq_none (h : EndsOnce tokens) (hs : tokens.length - 1 ≤ s.position) :
    s.next? file tokens = none := by
  obtain ⟨body, last, rfl, hlast, -⟩ := h
  rw [List.length_append, List.length_singleton, Nat.add_sub_cancel] at hs
  rw [next?, List.drop_append, List.drop_of_length_le hs, List.nil_append]
  cases s.position - body.length with
  | zero => exact if_pos hlast
  | succ k => rw [List.drop_succ_cons, List.drop_nil]

theorem next?_advances (h : EndsOnce tokens) (hnext : s.next? file tokens = some s') :
    s.position < s'.position ∧ s'.position ≤ tokens.length - 1 := by
  have hlt : s.position < tokens.length - 1 := by
    rw [← Nat.not_le]
    intro hend
    rw [next?_eq_none h hend] at hnext
    cases hnext
  obtain ⟨t, rest, hdrop, ht, hrest⟩ := h.exists_drop hlt
  rw [next?_of_drop hdrop ht, Option.some.injEq] at hnext
  have hlength := length_of_drop hdrop
  have hpos := (hrest.resume t).length_pos
  have hle := length_resume_le t rest
  subst hnext
  simp only
  omega

/-- An attempt whose type never ends goes on right behind the colon. -/
theorem position_of_untyped {name : Token} {opening left : List Token}
    (hdrop : tokens.drop s.position = t :: (opening ++ left)) (ht : t.lexeme = .external)
    (hopening : IsOpening name opening) (htype : takeType? .zero left = none) :
    (s.next? file tokens).map position = some (s.position + 1 + opening.length) := by
  have hresume : t.resume (opening ++ left) = left := by
    rw [Token.resume, if_pos ht, resumption, attempt_opening _ _ _ hopening, attemptType, htype]
  have hlength := length_of_drop hdrop
  rw [next?_of_drop hdrop (by simp [ht]), hresume, Option.map_some, hlength, List.length_append]
  simp only [Option.some.injEq]
  omega

/-! ### The whole loop -/

/-- From every state, the loop comes to the end of the file in fewer iterations than there are
tokens left, and has then found what the tokens declare. -/
theorem exists_iterates (h : EndsOnce tokens) (s : ScanState)
    (hs : s.position ≤ tokens.length - 1) :
    ∃ n last, s.position + n ≤ tokens.length - 1 ∧ Iterates file tokens n s last ∧
      last.next? file tokens = none ∧ last.position = tokens.length - 1 ∧
      last.found = s.found ++ declarations file s.pending (tokens.drop s.position) := by
  induction hn : tokens.length - 1 - s.position using Nat.strongRecOn generalizing s with
  | ind n ih =>
    rcases Nat.eq_or_lt_of_le hs with hend | hlt
    · refine ⟨0, s, hs, .zero s, next?_eq_none h (Nat.le_of_eq hend.symm), hend, ?_⟩
      obtain ⟨body, last, rfl, hlast, -⟩ := h
      rw [hend, List.length_append, List.length_singleton, Nat.add_sub_cancel, List.drop_left,
        declarations_cons, declared, Token.resume, hlast]
      simp [declarations]
    · obtain ⟨t, rest, hdrop, ht, -⟩ := h.exists_drop hlt
      have hnext := @next?_of_drop file _ _ _ _ hdrop ht
      obtain ⟨hahead, hwithin⟩ := next?_advances h hnext
      obtain ⟨k, last, hk, hiterates, hhalted, hlast, hfound⟩ := ih _ (by omega) _ hwithin rfl
      refine ⟨k + 1, last, by omega, .succ hnext hiterates, hhalted, hlast, ?_⟩
      rw [hfound, drop_resume hdrop, hdrop, declarations_cons, List.append_assoc]

end ScanState

theorem length_declarations_le (file : Text) (pending : Attributes) (tokens : List Token) :
    (declarations file pending tokens).length ≤
      tokens.countP fun t => t.lexeme = .external := by
  induction pending, tokens using induction_resume with
  | nil pending => simp [declarations]
  | cons pending t rest ih =>
    have hresume : (t.resume rest).countP (fun t => t.lexeme = .external) ≤
        rest.countP fun t => t.lexeme = .external := (resume_suffix t rest).sublist.countP_le
    rw [declarations_cons, List.length_append, List.countP_cons]
    by_cases hexternal : t.lexeme = .external
    · have hdeclared : (declared file pending t rest).toList.length ≤ 1 := by
        cases declared file pending t rest <;> simp
      simp only [hexternal, decide_true, if_true]
      omega
    · rw [declared, if_neg hexternal]
      simp only [Option.toList_none, List.length_nil]
      omega

/-- Over tokens of which the last alone is the end of the file, every iteration of the scan advances
and stays in the tokens, also one whose type is read up to the end and then left, behind the colon,
to be read again.  So the scan comes to the end of the file, and it finds at most one declaration
for each keyword. -/
theorem scan_halts (file : Text) {tokens : List Token} (h : EndsOnce tokens) :
    (∀ s s' : ScanState, s.next? file tokens = some s' →
      s.position < s'.position ∧ s'.position ≤ tokens.length - 1) ∧
    (∀ (s : ScanState) (keyword name : Token) (opening left : List Token),
      tokens.drop s.position = keyword :: (opening ++ left) → keyword.lexeme = .external →
      IsOpening name opening → takeType? .zero left = none →
      (s.next? file tokens).map ScanState.position = some (s.position + 1 + opening.length)) ∧
    (∃ n last, n ≤ tokens.length - 1 ∧ ScanState.Iterates file tokens n .start last ∧
      last.next? file tokens = none ∧ last.position = tokens.length - 1 ∧
      last.found = declarations file .empty tokens) ∧
    (declarations file .empty tokens).length ≤ tokens.countP fun t => t.lexeme = .external := by
  refine ⟨fun s s' => ScanState.next?_advances h, ?_, ?_, length_declarations_le file .empty tokens⟩
  · intro s keyword name opening left hdrop hkeyword hopening htype
    exact ScanState.position_of_untyped hdrop hkeyword hopening htype
  · obtain ⟨n, last, hn, hiterates, hhalted, hlast, hfound⟩ :=
      @ScanState.exists_iterates file tokens h .start (Nat.zero_le _)
    refine ⟨n, last, ?_, hiterates, hhalted, hlast, hfound⟩
    rwa [ScanState.start, Nat.zero_add] at hn

/-- The name and the colon of `external f: (`. -/
def openBracketOpening : List Token :=
  [⟨.identifier, [' '], ['f'], ⟨9, 1, 10⟩⟩, ⟨.colon, [], [':'], ⟨10, 1, 11⟩⟩]

/-- The bracket and the end of the file of `external f: (`. -/
def openBracketType : List Token :=
  [⟨.bracket ⟨.round, true⟩, [' '], ['('], ⟨12, 1, 13⟩⟩, ⟨.endOfFile, [], [], ⟨13, 1, 14⟩⟩]

def openBracketTokens : List Token :=
  ⟨.external, [], "external".toList, .start⟩ :: (openBracketOpening ++ openBracketType)

theorem endsOnce_openBracketTokens : EndsOnce openBracketTokens :=
  ⟨openBracketTokens.dropLast, ⟨.endOfFile, [], [], ⟨13, 1, 14⟩⟩, rfl, rfl, by decide⟩

/-- The type is read from index 3 up to the end of the file at index 4, and the loop goes on at
index 3. -/
theorem scan_halts_openBracketTokens :
    EndsOnce openBracketTokens ∧ takeType? .zero openBracketType = none ∧
      (ScanState.start.next? [] openBracketTokens).map ScanState.position = some 3 := by
  have hopening : IsOpening ⟨.identifier, [' '], ['f'], ⟨9, 1, 10⟩⟩ openBracketOpening :=
    @IsOpening.intro _ [] [] ⟨.colon, [], [':'], ⟨10, 1, 11⟩⟩ (by simp) rfl (by simp) rfl
  have hhalts := scan_halts [] endsOnce_openBracketTokens
  exact ⟨endsOnce_openBracketTokens, rfl, hhalts.2.1 .start _ _ _ _ rfl rfl hopening rfl⟩

end ForeignBindings
