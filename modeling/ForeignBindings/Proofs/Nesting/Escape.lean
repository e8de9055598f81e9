import Mathlib.Algebra.Group.Nat.Even
import Mathlib.Data.List.DropRight
import Mathlib.Order.Bounds.Basic
import ForeignBindings.Proofs.Nesting.Literal

/-! Where a string ends.  A backslash hides the character after it, be it a quote or a backslash, so
the backslashes right before a quote hide one another in pairs: the quote ends the string exactly if
their number is even.  A string ends right behind the first such quote, and where there is none, it
goes on to the end of the text. -/

namespace ForeignBindings

def backslashesAtEnd (text : Text) : Nat := (text.rtakeWhile (· == '\x5c')).length

/-- Where a string ends in a text of some length, and whether it is closed there, if `closes` tells
the places of the quotes that can end it. -/
inductive StringEnd (closes : Nat → Prop) (length : Nat) : Nat × Bool → Prop
  | closed {place : Nat} (h : IsLeast {place | closes place} place) :
      StringEnd closes length (place + 1, true)
  | unclosed (h : ∀ place, ¬closes place) : StringEnd closes length (length, false)

/-- In the text after an opening quote, the quote stands at a place behind an even number of
backslashes. -/
def ClosesTail (quote : Char) (rest : Text) (place : Nat) : Prop :=
  rest[place]? = some quote ∧ Even (backslashesAtEnd (rest.take place))

/-- The quote that stands at `start` stands again at a later place, behind an even number of
backslashes, of which none stands before `start`. -/
def ClosesString (text : Text) (start place : Nat) : Prop :=
  start < place ∧ text[place]? = text[start]? ∧ Even (backslashesAtEnd (text.extract start place))

/-! ### Backslashes -/

theorem backslashesAtEnd_concat (text : Text) (c : Char) :
    backslashesAtEnd (text ++ [c]) = if c = '\x5c' then backslashesAtEnd text + 1 else 0 := by
  rw [backslashesAtEnd]
  split
  · rename_i hc
    rw [List.rtakeWhile_concat_pos _ _ _ (by simpa using hc), List.length_append,
      List.length_singleton, backslashesAtEnd]
  · rename_i hc
    rw [List.rtakeWhile_concat_neg _ _ _ (by simpa using hc), List.length_nil]

theorem backslashesAtEnd_cons {c : Char} (hc : c ≠ '\x5c') (text : Text) :
    backslashesAtEnd (c :: text) = backslashesAtEnd text := by
  induction text using List.reverseRecOn with
  | nil => exact (backslashesAtEnd_concat [] c).trans (if_neg hc)
  | append_singleton text d ih =>
    rw [← List.cons_append, backslashesAtEnd_concat, backslashesAtEnd_concat, ih]

/-- A backslash and the character that it hides do not change whether the number is even: the
character ends the run before it, or is the second of a pair. -/
theorem even_backslashesAtEnd_escape (c : Char) (text : Text) :
    Even (backslashesAtEnd ('\x5c' :: c :: text)) ↔ Even (backslashesAtEnd text) := by
  induction text using List.reverseRecOn with
  | nil =>
    have hescape := backslashesAtEnd_concat ['\x5c'] c
    rw [List.singleton_append] at hescape
    rw [hescape]
    split <;> decide
  | append_singleton text d ih =>
    rw [← List.cons_append, ← List.cons_append, backslashesAtEnd_concat, backslashesAtEnd_concat]
    split
    · rw [Nat.even_add_one, Nat.even_add_one, ih]
    · exact Iff.rfl

/-! ### The end of a string -/

/-- The end of a string, seen from a place further to the front. -/
theorem StringEnd.shift {closes closes' : Nat → Prop} {length k : Nat} {span : Nat × Bool}
    (h : StringEnd closes length span) (hbefore : ∀ place < k, ¬closes' place)
    (hfrom : ∀ place, closes' (place + k) ↔ closes place) :
    StringEnd closes' (length + k) (span.1 + k, span.2) := by
  cases h with
  | @closed first hleast =>
    rw [Nat.add_right_comm]
    refine .closed ⟨(hfrom first).mpr hleast.1, fun place hplace => ?_⟩
    rcases Nat.lt_or_ge place k with hlt | hge
    · exact absurd hplace (hbefore place hlt)
    · obtain ⟨i, rfl⟩ := Nat.exists_eq_add_of_le' hge
      exact Nat.add_le_add_right (hleast.2 ((hfrom i).mp hplace)) k
  | unclosed hnone =>
    refine .unclosed fun place hplace => ?_
    rcases Nat.lt_or_ge place k with hlt | hge
    · exact hbefore place hlt hplace
    · obtain ⟨i, rfl⟩ := Nat.exists_eq_add_of_le' hge
      exact hnone i ((hfrom i).mp hplace)

section Tail

variable {quote : Char}

theorem closesTail_escape (c : Char) (rest : Text) (place : Nat) :
    ClosesTail quote ('\x5c' :: c :: rest) (place + 2) ↔ ClosesTail quote rest place := by
  rw [ClosesTail, ClosesTail, List.take_succ_cons, List.take_succ_cons,
    even_backslashesAtEnd_escape]
  rfl

theorem closesTail_cons {c : Char} (hc : c ≠ '\x5c') (rest : Text) (place : Nat) :
    ClosesTail quote (c :: rest) (place + 1) ↔ ClosesTail quote rest place := by
  rw [ClosesTail, ClosesTail, List.take_succ_cons, backslashesAtEnd_cons hc]
  rfl

variable (hquote : quote ≠ '\x5c')
include hquote

/-- Neither the backslash nor the character that it hides ends a string. -/
theorem not_closesTail_escape (c : Char) (rest : Text) :
    ∀ place < 2, ¬ClosesTail quote ('\x5c' :: c :: rest) place := by
  rintro place hplace ⟨hchar, heven⟩
  obtain rfl | rfl : place = 0 ∨ place = 1 := by omega
  · exact hquote (Option.some.inj hchar).symm
  · exact Nat.not_even_one heven

/-- Reading two characters at a backslash and one anywhere else comes to the first quote that no
backslash hides. -/
theorem stringEnd_stringTail (rest : Text) :
    StringEnd (ClosesTail quote rest) rest.length (stringTail quote rest) := by
  fun_induction stringTail quote rest with
  | case1 => exact .unclosed fun place h => by simp [ClosesTail] at h
  | case2 =>
    refine .unclosed fun place h => ?_
    obtain ⟨hlt, hchar⟩ := List.getElem?_eq_some_iff.mp h.1
    rw [List.getElem_singleton] at hchar
    exact hquote hchar.symm
  | case3 c rest n closed htail ih =>
    rw [htail] at ih
    exact ih.shift (not_closesTail_escape hquote c rest) (closesTail_escape c rest)
  | case4 => exact .closed ⟨⟨rfl, Even.zero⟩, fun _ _ => Nat.zero_le _⟩
  | case5 c rest hend hescape hc n closed htail ih =>
    have hchar : c ≠ '\x5c' := by
      rintro rfl
      cases rest with
      | nil => exact hend rfl rfl
      | cons d rest => exact hescape d rest rfl rfl
    rw [htail] at ih
    refine ih.shift (fun place hplace hcloses => ?_) (closesTail_cons hchar rest)
    obtain rfl := Nat.lt_one_iff.mp hplace
    exact hc (Option.some.inj hcloses.1)

end Tail

/-- In a text with a string at `start`, the places after the opening quote are those of the text
after it. -/
theorem closesString_iff {text rest : Text} {start : Nat} {quote : Char} (hquote : quote ≠ '\x5c')
    (hdrop : text.drop start = quote :: rest) (place : Nat) :
    ClosesString text start (place + (start + 1)) ↔ ClosesTail quote rest place := by
  have hopening : text[start]? = some quote := by
    rw [← List.head?_drop, hdrop, List.head?_cons]
  have hplace : text[place + (start + 1)]? = rest[place]? := by
    rw [show place + (start + 1) = start + (place + 1) by omega, ← List.getElem?_drop, hdrop,
      List.getElem?_cons_succ]
  have hrun : text.extract start (place + (start + 1)) = quote :: rest.take place := by
    rw [List.extract, hdrop, show place + (start + 1) - start = place + 1 by omega,
      List.take_succ_cons]
  rw [ClosesString, ClosesTail, hopening, hplace, hrun, backslashesAtEnd_cons hquote]
  exact and_iff_right (by omega)

/-- A string that starts inside a text with some quote ends right behind the first later place at
which the quote stands behind an even number of backslashes; if there is none, it is not closed and
goes on to the end of the text.  In either case it has its quote at least, and stays in the
text. -/
theorem stringSpan_ends {text : Text} {start : Nat} (hstart : start < text.length)
    (hquote : text[start] ≠ '\x5c') :
    ∃ stop closed, stringSpan text start = .ok (stop, closed) ∧
      StringEnd (ClosesString text start) text.length (stop, closed) ∧
      start < stop ∧ stop ≤ text.length := by
  obtain ⟨rest, hrest⟩ : ∃ rest, text.drop start = text[start] :: rest :=
    ⟨_, List.drop_eq_getElem_cons hstart⟩
  have hlength : rest.length + (start + 1) = text.length := by
    have hdrop := congrArg List.length hrest
    rw [List.length_drop, List.length_cons] at hdrop
    omega
  have hend := (stringEnd_stringTail hquote rest).shift
    (fun place hplace hcloses => Nat.not_lt.mpr (Nat.le_of_lt_succ hplace) hcloses.1)
    (closesString_iff hquote hrest)
  rw [hlength] at hend
  have hle := stringTail_le text[start] rest
  refine ⟨(stringTail text[start] rest).1 + (start + 1), (stringTail text[start] rest).2, ?_, hend,
    by omega, by omega⟩
  simp only [stringSpan, hrest, Nat.add_comm (start + 1)]

example : stringSpan "\"a\\\"b\" c".toList 0 = .ok (6, true) := by decide

/-- The text `b = "x\\\"y\\" c`: its string goes on over the quote behind three backslashes, and
ends at the one behind two. -/
def escapedString : Text := "b = \"x\\\\\\\"y\\\\\" c".toList

theorem stringSpan_ends_escapedString :
    4 < escapedString.length ∧ escapedString[4] ≠ '\x5c' ∧
      ∃ stop closed, stringSpan escapedString 4 = .ok (stop, closed) ∧
        StringEnd (ClosesString escapedString 4) escapedString.length (stop, closed) ∧
        4 < stop ∧ stop ≤ escapedString.length :=
  ⟨by decide, by decide, stringSpan_ends (by decide) (by decide)⟩

end ForeignBindings
