import ForeignBindings.Text.Lines

/-! Written lines.  Lines without breaks of their own, each but perhaps the last with an end behind
it, are the lines of what they write; which of the ends is taken for which line makes no
difference. -/

namespace ForeignBindings.Text

/-- No character of the text ends a line. -/
def Unbroken (text : Text) : Prop := ∀ c ∈ text, isLineBreak c = false

instance : DecidablePred Unbroken := List.decidableBAll (fun c => isLineBreak c = false)

/-- The end of a line: a line break, or a carriage return with a line feed. -/
inductive IsLineEnd : Text → Prop
  | char {c : Char} (hc : isLineBreak c = true) : IsLineEnd [c]
  | returnFeed : IsLineEnd ['\r', '\n']

/-- A text that is written line by line.  A carriage return that ends a line does not meet the line
feed that ends an empty line after it, for the two are one end. -/
inductive Writes : List Text → Text → Prop
  | nil : Writes [] []
  | last {line : Text} (hne : line ≠ []) : Writes [line] line
  | line {line ending rest : Text} {lines : List Text} (hending : IsLineEnd ending)
    (hown : ¬(ending = ['\r'] ∧ rest.head? = some '\n')) (hrest : Writes lines rest) :
    Writes (line :: lines) (line ++ (ending ++ rest))

theorem lines_break {c : Char} {rest : Text} (hc : isLineBreak c = true)
    (hown : ¬(c = '\r' ∧ rest.head? = some '\n')) : lines (c :: rest) = [] :: lines rest := by
  rw [lines, if_pos hc]
  rintro more rfl rfl
  exact hown ⟨rfl, rfl⟩

theorem lines_cons {c : Char} {rest first : Text} {more : List Text} (hc : isLineBreak c = false)
    (h : lines rest = first :: more) : lines (c :: rest) = (c :: first) :: more := by
  rw [lines, if_neg (by simp [hc]), h]
  rintro _ rfl
  cases hc

theorem lines_ending_append {ending rest : Text} (hending : IsLineEnd ending)
    (hown : ¬(ending = ['\r'] ∧ rest.head? = some '\n')) :
    lines (ending ++ rest) = [] :: lines rest := by
  cases hending with
  | char hc => exact lines_break hc fun hreturn => hown ⟨by rw [hreturn.1], hreturn.2⟩
  | returnFeed => rfl

theorem lines_append {line rest : Text} {more : List Text} (hline : Unbroken line)
    (h : lines rest = [] :: more) : lines (line ++ rest) = line :: more := by
  induction line with
  | nil => exact h
  | cons c line ih =>
    obtain ⟨hc, hline⟩ := List.forall_mem_cons.mp hline
    exact lines_cons hc (ih hline)

theorem lines_unbroken {line : Text} (hline : Unbroken line) (hne : line ≠ []) :
    lines line = [line] := by
  induction line with
  | nil => exact absurd rfl hne
  | cons c line ih =>
    obtain ⟨hc, hline⟩ := List.forall_mem_cons.mp hline
    cases line with
    | nil =>
      rw [lines, if_neg (by simp [hc])]
      · rfl
      · rintro _ rfl
        cases hc
    | cons d line => exact lines_cons hc (ih hline (List.cons_ne_nil d line))

theorem lines_of_writes {texts : List Text} {output : Text} (hwrites : Writes texts output)
    (htexts : ∀ line ∈ texts, Unbroken line) : output.lines = texts := by
  induction hwrites with
  | nil => rfl
  | last hne => exact lines_unbroken (htexts _ List.mem_cons_self) hne
  | line hending hown _ ih =>
    obtain ⟨hline, htexts⟩ := List.forall_mem_cons.mp htexts
    rw [lines_append hline (lines_ending_append hending hown), ih htexts]

/-! ### Lines above a place -/

theorem head?_lines {text : Text} (hne : text ≠ []) :
    text.lines.head? = some (text.takeWhile fun c => !isLineBreak c) := by
  induction text with
  | nil => exact absurd rfl hne
  | cons c text ih =>
    by_cases hc : isLineBreak c = true
    · rw [List.takeWhile_cons_of_neg (by simp [hc]), lines.eq_def]
      split
      · contradiction
      · rfl
      · next hcons =>
        obtain ⟨rfl, rfl⟩ := List.cons.inj hcons
        rw [if_pos hc]
        rfl
    · rw [Bool.not_eq_true] at hc
      rw [List.takeWhile_cons_of_pos (by simp [hc])]
      cases text with
      | nil => rw [lines_unbroken (List.forall_mem_singleton.mpr hc) (List.cons_ne_nil c [])]; rfl
      | cons d text =>
        obtain ⟨more, hlines⟩ := List.head?_eq_some_iff.mp (ih (List.cons_ne_nil d text))
        rw [lines_cons hc hlines]
        rfl

/-- The number of the ends of lines that hold no line feed. -/
def otherEnds : Text → Nat
  | [] => 0
  | '\r' :: '\n' :: rest => otherEnds rest
  | c :: rest => (if isLineBreak c ∧ c ≠ '\n' then 1 else 0) + otherEnds rest

/-- The text consists of closed lines and the beginning of another, and so it does before any other
text that does not continue the last end. -/
structure GoesOn (text : Text) (above : List Text) (closed beginning : Text) : Prop where
  text_eq : text = closed ++ beginning
  unbroken : Unbroken beginning
  closed_eq_nil_iff : closed = [] ↔ above = []
  length_above : above.length = text.count '\n' + otherEnds text
  getLast?_closed : otherEnds text = 0 → ∀ c ∈ closed.getLast?, c = '\n'
  lines_append : ∀ rest, rest.head? ≠ some '\n' →
    (text ++ rest).lines = above ++ (beginning ++ rest).lines

theorem eq_or_mem_of_mem_getLast?_cons {c last : Char} {text : Text}
    (h : last ∈ (c :: text).getLast?) : last = c ∨ last ∈ text.getLast? := by
  cases text with
  | nil => exact .inl (Option.mem_some_iff.mp h).symm
  | cons d text =>
    rw [List.getLast?_cons_cons] at h
    exact .inr h

namespace GoesOn

variable {text closed beginning : Text} {above : List Text}

theorem returnFeed (h : GoesOn text above closed beginning) :
    GoesOn ('\r' :: '\n' :: text) ([] :: above) ('\r' :: '\n' :: closed) beginning where
  text_eq := by
    rw [h.text_eq]
    rfl
  unbroken := h.unbroken
  closed_eq_nil_iff := by simp
  length_above := by
    rw [otherEnds, List.length_cons, h.length_above, List.count_cons_of_ne (by decide),
      List.count_cons_self]
    omega
  getLast?_closed hnone c hc := by
    rw [List.getLast?_cons_cons] at hc
    rcases eq_or_mem_of_mem_getLast?_cons hc with hfeed | hlast
    · exact hfeed
    · exact h.getLast?_closed hnone c hlast
  lines_append rest hrest := congrArg (List.cons []) (h.lines_append rest hrest)

theorem lineBreak {c : Char} (hc : isLineBreak c = true)
    (hown : ¬(c = '\r' ∧ text.head? = some '\n')) (h : GoesOn text above closed beginning) :
    GoesOn (c :: text) ([] :: above) (c :: closed) beginning := by
  have hends : otherEnds (c :: text) = (if c ≠ '\n' then 1 else 0) + otherEnds text := by
    rw [otherEnds]
    · simp [hc]
    · rintro more rfl rfl
      exact hown ⟨rfl, rfl⟩
  refine ⟨by rw [h.text_eq]; rfl, h.unbroken, by simp, ?_, ?_, ?_⟩
  · rw [List.length_cons, h.length_above, hends]
    by_cases hfeed : c = '\n' <;> simp [hfeed] <;> omega
  · intro hnone last hlast
    rw [hends, Nat.add_eq_zero_iff] at hnone
    rcases eq_or_mem_of_mem_getLast?_cons hlast with rfl | hlast
    · simpa using hnone.1
    · exact h.getLast?_closed hnone.2 last hlast
  · intro rest hrest
    have hmeets : ¬(c = '\r' ∧ (text ++ rest).head? = some '\n') := by
      rintro ⟨hreturn, hfeed⟩
      cases text with
      | nil => exact hrest hfeed
      | cons d text => exact hown ⟨hreturn, hfeed⟩
    rw [List.cons_append, lines_break hc hmeets, h.lines_append rest hrest]
    rfl

theorem char {c : Char} (hc : isLineBreak c = false) (h : GoesOn text above closed beginning) :
    ∃ above closed beginning, GoesOn (c :: text) above closed beginning := by
  have hne : c ≠ '\n' := by
    rintro rfl
    cases hc
  have hends : otherEnds (c :: text) = otherEnds text := by
    rw [otherEnds]
    · simp [hc]
    · rintro more rfl
      cases hc
  have hcount : (c :: text).count '\n' = text.count '\n' := List.count_cons_of_ne hne
  cases above with
  | nil =>
    obtain rfl := h.closed_eq_nil_iff.mpr rfl
    obtain rfl := h.text_eq
    refine ⟨[], [], c :: text, rfl, List.forall_mem_cons.mpr ⟨hc, h.unbroken⟩, by simp, ?_,
      fun _ _ h => (nomatch h), fun _ _ => rfl⟩
    rw [hcount, hends, h.length_above]
  | cons line above =>
    have hclosed := mt h.closed_eq_nil_iff.mp (List.cons_ne_nil line above)
    refine ⟨(c :: line) :: above, c :: closed, beginning, by rw [h.text_eq]; rfl, h.unbroken,
      by simp, ?_, ?_, fun rest hrest => lines_cons hc (h.lines_append rest hrest)⟩
    · rw [hcount, hends, ← h.length_above]
      rfl
    · rw [hends, List.getLast?_cons_of_ne_nil hclosed]
      exact h.getLast?_closed

end GoesOn

theorem exists_goesOn (text : Text) :
    ∃ above closed beginning, GoesOn text above closed beginning := by
  induction text using otherEnds.induct with
  | case1 =>
    exact ⟨[], [], [], rfl, List.forall_mem_nil _, by simp, rfl, fun _ _ h => (nomatch h),
      fun _ _ => rfl⟩
  | case2 rest ih =>
    obtain ⟨above, closed, beginning, h⟩ := ih
    exact ⟨_, _, _, h.returnFeed⟩
  | case3 c rest hown ih =>
    obtain ⟨above, closed, beginning, h⟩ := ih
    by_cases hc : isLineBreak c = true
    · refine ⟨_, _, _, h.lineBreak hc ?_⟩
      rintro ⟨rfl, hfeed⟩
      obtain ⟨more, rfl⟩ := List.head?_eq_some_iff.mp hfeed
      exact hown more rfl rfl
    · exact h.char (by simpa using hc)

end ForeignBindings.Text
