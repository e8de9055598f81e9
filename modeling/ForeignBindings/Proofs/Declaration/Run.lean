import ForeignBindings.Proofs.Declaration.Attempt

/-! The scan as a run of steps.  A state is the attributes that are pending and the tokens that are
left; a step reads one token, or makes one attempt.  The declarations of a source are those of the
attempts at the states that its run comes to. -/

namespace ForeignBindings

def resumption (tokens : List Token) : List Token :=
  (attempt [] .empty ⟨.external, [], [], .start⟩ tokens).2

theorem attempt_snd (file : Text) (attributes : Attributes) (keyword : Token)
    (tokens : List Token) :
    (attempt file attributes keyword tokens).2 = resumption tokens := by
  simp only [resumption, attempt]
  repeat' split
  all_goals rfl

def Token.resume (t : Token) (rest : List Token) : List Token :=
  if t.lexeme = .external then resumption rest else rest

/-- The attributes at the state after a token. -/
def Token.passOn (t : Token) (pending : Attributes) : Attributes :=
  match t.lexeme with
  | .comment => pending
  | .attribute decorator => pending.apply decorator
  | _ => .empty

/-- What the attempt at a token declares, if the token is a keyword. -/
def declared (file : Text) (pending : Attributes) (t : Token) (rest : List Token) :
    Option Declaration :=
  if t.lexeme = .external then (attempt file pending t rest).1 else none

theorem declarations_cons (file : Text) (pending : Attributes) (t : Token) (rest : List Token) :
    declarations file pending (t :: rest) =
      (declared file pending t rest).toList ++
        declarations file (t.passOn pending) (t.resume rest) := by
  rw [declarations, declared, Token.resume, Token.passOn]
  split
  · rename_i h
    simp [h]
  · rename_i h
    simp [h]
  · rename_i h
    simp only [h, if_true, attempt_snd]
  · rename_i h₁ h₂ h₃
    simp only [if_neg h₃, Option.toList_none, List.nil_append]

/-- From one state the scan comes to another. -/
inductive Runs : Attributes → List Token → Attributes → List Token → Prop
  | refl (pending : Attributes) (tokens : List Token) : Runs pending tokens pending tokens
  | step {pending pending' : Attributes} {t : Token} {rest tokens : List Token}
      (h : Runs (t.passOn pending) (t.resume rest) pending' tokens) :
      Runs pending (t :: rest) pending' tokens

theorem declared_eq_some {file : Text} {pending : Attributes} {t : Token} {rest : List Token}
    {d : Declaration} (h : declared file pending t rest = some d) :
    t.lexeme = .external ∧ d.attributes = pending ∧ d.line = t.start.line ∧
      d.column = t.start.column := by
  rw [declared] at h
  split at h
  · rename_i hexternal
    obtain ⟨used, -, hattempt⟩ := attempts_attempt file pending t rest
    rw [h] at hattempt
    cases hattempt
    exact ⟨hexternal, rfl, rfl, rfl⟩
  · cases h

theorem length_resume_le (t : Token) (rest : List Token) :
    (t.resume rest).length ≤ rest.length := by
  rw [Token.resume]
  split
  · exact length_attempt_le ..
  · exact Nat.le_refl _

/-- Induction along the scan, from the state after a token to the state before it. -/
@[elab_as_elim]
theorem induction_resume {motive : Attributes → List Token → Prop}
    (nil : ∀ pending, motive pending [])
    (cons : ∀ pending t rest, motive (t.passOn pending) (t.resume rest) →
      motive pending (t :: rest))
    (pending : Attributes) (tokens : List Token) : motive pending tokens := by
  induction hn : tokens.length using Nat.strongRecOn generalizing pending tokens with
  | ind n ih =>
    cases tokens with
    | nil => exact nil pending
    | cons t rest =>
      have hlt : (t.resume rest).length < n := by
        have := length_resume_le t rest
        rw [List.length_cons] at hn
        omega
      exact cons pending t rest (ih _ hlt _ _ rfl)

/-- The declarations are those of the attempts at the states that the scan comes to. -/
theorem mem_declarations_iff {file : Text} {pending : Attributes} {tokens : List Token}
    {d : Declaration} :
    d ∈ declarations file pending tokens ↔
      ∃ pending' keyword after, Runs pending tokens pending' (keyword :: after) ∧
        declared file pending' keyword after = some d := by
  constructor
  · intro h
    induction pending, tokens using induction_resume with
    | nil pending => simp [declarations] at h
    | cons pending t rest ih =>
      rw [declarations_cons, List.mem_append, Option.mem_toList] at h
      rcases h with h | h
      · exact ⟨pending, t, rest, .refl _ _, h⟩
      · obtain ⟨pending', keyword, after, hruns, hd⟩ := ih h
        exact ⟨pending', keyword, after, .step hruns, hd⟩
  · rintro ⟨pending', keyword, after, hruns, hd⟩
    generalize hstate : keyword :: after = state at hruns
    induction hruns with
    | refl pending tokens =>
      subst hstate
      rw [declarations_cons, hd]
      simp
    | step h ih =>
      rw [declarations_cons]
      exact List.mem_append_right _ (ih hd hstate)

/-! ### Names of files -/

def Declaration.inFile (file : Text) (d : Declaration) : Declaration := { d with file := file }

theorem declared_inFile (file other : Text) (pending : Attributes) (t : Token)
    (rest : List Token) :
    declared file pending t rest = (declared other pending t rest).map (·.inFile file) := by
  simp only [declared, attempt]
  repeat' split
  all_goals rfl

/-- The name of a file is only told. -/
theorem declarations_inFile (file other : Text) (pending : Attributes) (tokens : List Token) :
    declarations file pending tokens =
      (declarations other pending tokens).map (·.inFile file) := by
  induction pending, tokens using induction_resume with
  | nil pending => simp [declarations]
  | cons pending t rest ih =>
    rw [declarations_cons, declarations_cons, declared_inFile file other, ih, List.map_append]
    congr 1
    cases declared other pending t rest <;> rfl

theorem scan_inFile (file other source : Text) :
    scan file source = (scan other source).map (·.inFile file) :=
  declarations_inFile file other .empty (tokenize source)

end ForeignBindings
