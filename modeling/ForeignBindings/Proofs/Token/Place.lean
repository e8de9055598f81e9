import ForeignBindings.Proofs.Text.OneLine
import ForeignBindings.Proofs.Token.Boundary

/-! Lines and columns of tokens.  A text is its whole lines and the beginning of one more; so the
place behind it has a line for each of its line feeds, and its column counts from the last of them,
whichever tokens hold them. -/

namespace ForeignBindings

open Text

namespace Text

/-! ### Lines before a place -/

/-- The text consists of the lines, each closed by a line feed, and the beginning of another. -/
structure EndsOnLine (text : Text) (lines : List Text) (beginning : Text) : Prop where
  text_eq : text = lines.flatMap (· ++ ['\n']) ++ beginning
  lines_oneLine : ∀ line ∈ lines, OneLine line
  beginning_oneLine : OneLine beginning

theorem exists_endsOnLine (text : Text) : ∃ lines beginning, EndsOnLine text lines beginning := by
  induction text using List.reverseRecOn with
  | nil => exact ⟨[], [], rfl, List.forall_mem_nil _, oneLine_nil⟩
  | append_singleton text c ih =>
    obtain ⟨lines, beginning, rfl, hlines, hbeginning⟩ := ih
    by_cases hc : c = '\n'
    · subst hc
      refine ⟨lines ++ [beginning], [], by simp, ?_, oneLine_nil⟩
      rw [List.forall_mem_append, List.forall_mem_singleton]
      exact ⟨hlines, hbeginning⟩
    · exact ⟨lines, beginning ++ [c], List.append_assoc _ _ _, hlines,
        hbeginning.append (oneLine_cons.mpr ⟨hc, oneLine_nil⟩)⟩

/-- Closed lines end with a line feed, unless there are none. -/
theorem flatMap_lines_cases (lines : List Text) : lines.flatMap (· ++ ['\n']) = [] ∨
    ∃ front, lines.flatMap (· ++ ['\n']) = front ++ ['\n'] := by
  rcases List.eq_nil_or_concat lines with rfl | ⟨front, line, rfl⟩
  · exact .inl rfl
  · exact .inr ⟨front.flatMap (· ++ ['\n']) ++ line, by simp⟩

theorem head?_splitOn (text : Text) :
    (text.splitOn '\n').head? = some (text.takeWhile (· != '\n')) := by
  induction text with
  | nil => simp
  | cons c text ih =>
    rw [List.splitOn_cons_eq_if_modifyHead]
    by_cases hc : c = '\n'
    · simp [hc]
    · obtain ⟨line, more, hsplit⟩ := List.exists_cons_of_ne_nil (List.splitOn_ne_nil '\n' text)
      rw [hsplit] at ih ⊢
      simpa [hc] using ih

theorem ne_newline_of_mem {line : Text} (h : OneLine line) {c : Char} (hc : c ∈ line) :
    (c != '\n') = true := by
  rw [bne_iff_ne]
  rintro rfl
  exact h hc

namespace EndsOnLine

variable {text beginning : Text} {lines : List Text}

theorem count_eq (h : EndsOnLine text lines beginning) : text.count '\n' = lines.length := by
  obtain ⟨rfl, hlines, hbeginning⟩ := h
  rw [List.count_append, List.count_eq_zero.mpr hbeginning, Nat.add_zero]
  induction lines with
  | nil => rfl
  | cons line lines ih =>
    have hline := List.count_eq_zero.mpr (hlines line List.mem_cons_self)
    rw [List.flatMap_cons, List.count_append, List.count_append, hline,
      ih fun l hl => hlines l (List.mem_cons_of_mem _ hl), List.length_cons]
    simp [Nat.add_comm]

theorem advance_eq (h : EndsOnLine text lines beginning) :
    (Position.start.advance text).line = lines.length + 1 ∧
      (Position.start.advance text).column = beginning.length + 1 := by
  have hline := (Position.advance_start text).1
  have hcolumn := (Position.advance_start text).2
  rw [h.count_eq] at hline
  obtain ⟨rfl, -, hbeginning⟩ := h
  refine ⟨hline, hcolumn.trans ?_⟩
  have hclosed : (lines.flatMap (· ++ ['\n'])).reverse.head?.any (· != '\n') = false := by
    rcases flatMap_lines_cases lines with hnil | ⟨front, hfront⟩
    · rw [hnil]
      rfl
    · rw [hfront, List.reverse_concat]
      rfl
  have hplain : ∀ c ∈ beginning.reverse, (c != '\n') = true :=
    fun c hc => ne_newline_of_mem hbeginning (List.mem_reverse.mp hc)
  rw [List.reverse_append, Lexer.takeWhile_append hplain hclosed, List.length_reverse]

/-- The line that a text ends on goes on in the text after it. -/
theorem splitOn_getElem? (h : EndsOnLine text lines beginning) (rest : Text) :
    ((text ++ rest).splitOn '\n')[lines.length]? =
      some (beginning ++ rest.takeWhile (· != '\n')) := by
  obtain ⟨rfl, hlines, hbeginning⟩ := h
  have hplain : ∀ c ∈ beginning, (c != '\n') = true := fun c hc => ne_newline_of_mem hbeginning hc
  rw [List.append_assoc, splitOn_lines_append hlines, List.getElem?_append_right (Nat.le_refl _),
    Nat.sub_self, ← List.head?_eq_getElem?, head?_splitOn, List.takeWhile_append_of_pos hplain]

end EndsOnLine

end Text

/-! ### The last line feed before a place -/

/-- The index of the last line feed of the source before an offset, or the one before the source if
there is none. -/
inductive LastLineFeed (source : Text) (offset : Nat) : Int → Prop
  | none (h : '\n' ∉ source.take offset) : LastLineFeed source offset (-1)
  | at {i : Nat} (hbefore : i < offset) (hi : source[i]? = some '\n')
      (hlast : ∀ j, i < j → j < offset → source[j]? ≠ some '\n') : LastLineFeed source offset i

theorem lastLineFeed_of_endsOnLine {front beginning : Text} {lines : List Text}
    (h : EndsOnLine front lines beginning) (rest : Text) :
    LastLineFeed (front ++ rest) front.length (front.length - beginning.length - 1) := by
  obtain ⟨rfl, -, hbeginning⟩ := h
  rcases flatMap_lines_cases lines with hnil | ⟨above, habove⟩
  · have hindex : (beginning.length : Int) - beginning.length - 1 = -1 := by omega
    rw [hnil, List.nil_append, hindex]
    exact .none (by rwa [List.take_left])
  · have hfirst : (above ++ ['\n']).length = above.length + 1 := List.length_append
    have hlength : (above ++ ['\n'] ++ beginning).length = above.length + 1 + beginning.length := by
      rw [List.length_append, hfirst]
    have hindex : ((above ++ ['\n'] ++ beginning).length : Int) - beginning.length - 1 =
        above.length := by omega
    rw [habove, hindex]
    refine .at (by omega) (by simp) fun j hafter hbefore => ?_
    have hinside : (above ++ ['\n'] ++ beginning ++ rest)[j]? =
        beginning[j - (above ++ ['\n']).length]? := by
      rw [List.getElem?_append_left hbefore, List.getElem?_append_right (by omega)]
    rw [hinside]
    intro hnewline
    exact hbeginning (List.mem_of_getElem? hnewline)

/-- A token's line is one more than the number of line feeds before it, and its column is its
distance from the last of them. -/
theorem place_of_mem_tokenize {source : Text} {t : Token} (ht : t ∈ tokenize source) :
    t.start.line = 1 + (source.take t.start.offset).count '\n' ∧
      ∃ i, LastLineFeed source t.start.offset i ∧ (t.start.column : Int) = t.start.offset - i := by
  obtain ⟨front, rest, rfl, hstart, -, -⟩ := Lexer.startsBetween_of_mem_tokenize ht
  obtain ⟨lines, beginning, hends⟩ := exists_endsOnLine front
  obtain ⟨hline, hcolumn⟩ := hends.advance_eq
  have hoffset : t.start.offset = front.length := by
    rw [hstart, Position.offset_advance]
    exact Nat.zero_add _
  rw [hoffset, List.take_left, hends.count_eq, hstart, hline, hcolumn]
  refine ⟨Nat.add_comm _ _, _, lastLineFeed_of_endsOnLine hends rest, ?_⟩
  omega

end ForeignBindings
