import ForeignBindings.Text.ShellWords

/-! Blank command lines.  A word that has begun is one of the words, so a command line has no words
exactly if it is blank. -/

namespace ForeignBindings

namespace ShellWords

/-- Something of a word has been read. -/
def Begun : Place → Text → Bool → Prop
  | .bare, word, wasQuoted | .within _, word, wasQuoted => word ≠ [] ∨ wasQuoted = true
  | .escaped, _, _ | .escapedWithin _, _, _ => True

theorem emit_ne_nil {word : Text} {wasQuoted : Bool} (h : word ≠ [] ∨ wasQuoted = true)
    (later : List Text) : emit word wasQuoted later ≠ [] := by
  rw [emit, if_neg]
  · exact List.cons_ne_nil _ _
  · rintro ⟨hword, hquoted⟩
    exact h.elim (fun hne => hne hword) hquoted

theorem readFrom_ne_nil {place : Place} {word : Text} {wasQuoted : Bool} {text : Text}
    (h : Begun place word wasQuoted) : readFrom place word wasQuoted text ≠ .ok [] := by
  induction text generalizing place word wasQuoted with
  | nil =>
    cases place with
    | bare =>
      rw [readFrom, Ne, Except.ok.injEq]
      exact emit_ne_nil h []
    | within | escaped | escapedWithin => simp [readFrom]
  | cons c rest ih =>
    cases place with
    | bare =>
      rw [readFrom]
      split
      · cases readFrom .bare [] false rest with
        | error fault => simp [Except.map]
        | ok later =>
          rw [Except.map, Ne, Except.ok.injEq]
          exact emit_ne_nil h later
      · split
        · exact ih trivial
        · split
          · exact ih (.inr rfl)
          · exact ih (.inl (by simp))
    | within quote =>
      rw [readFrom]
      split
      · exact ih h
      · split
        · exact ih trivial
        · exact ih (.inl (by simp))
    | escaped =>
      rw [readFrom]
      exact ih (.inl (by simp))
    | escapedWithin quote =>
      rw [readFrom]
      refine ih (.inl ?_)
      split <;> simp

/-- A command line has no words exactly if it is blank. -/
theorem split_eq_ok_nil_iff {line : Text} :
    split line = .ok [] ↔ ∀ c ∈ line, isSeparator c = true := by
  rw [split]
  induction line with
  | nil => simp [readFrom, emit]
  | cons c rest ih =>
    rw [readFrom, List.forall_mem_cons]
    by_cases hc : isSeparator c = true
    · rw [if_pos hc, ← ih]
      cases readFrom .bare [] false rest <;> simp [Except.map, emit, hc]
    · rw [if_neg hc]
      simp only [hc, false_and, iff_false, Bool.false_eq_true]
      split
      · exact readFrom_ne_nil trivial
      · split
        · exact readFrom_ne_nil (.inr rfl)
        · exact readFrom_ne_nil (.inl (by simp))

end ShellWords

end ForeignBindings
