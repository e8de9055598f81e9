import ForeignBindings.Json.Printer
import ForeignBindings.Text.Blank

/-! Texts on one line.  Digits, printed strings and words hold no line feed, so a text of them stays
on its line; and the lines of a text come back when the text is split at its line feeds. -/

namespace ForeignBindings.Text

def OneLine (text : Text) : Prop := '\n' ∉ text

instance : DecidablePred OneLine := fun text => inferInstanceAs (Decidable ('\n' ∉ text))

@[simp] theorem oneLine_nil : OneLine [] := List.not_mem_nil

@[simp] theorem oneLine_cons {c : Char} {text : Text} :
    OneLine (c :: text) ↔ c ≠ '\n' ∧ OneLine text := by
  simp [OneLine, eq_comm]

@[simp] theorem oneLine_append {text more : Text} :
    OneLine (text ++ more) ↔ OneLine text ∧ OneLine more := by
  simp [OneLine]

theorem OneLine.append {text more : Text} (ht : OneLine text) (hm : OneLine more) :
    OneLine (text ++ more) :=
  oneLine_append.mpr ⟨ht, hm⟩

theorem oneLine_flatMap {α : Type} {parts : List α} {f : α → Text} :
    OneLine (parts.flatMap f) ↔ ∀ part ∈ parts, OneLine (f part) := by
  simp [OneLine]

theorem oneLine_join {separator : Text} {parts : List Text} (h : OneLine separator) :
    OneLine (join separator parts) ↔ ∀ part ∈ parts, OneLine part := by
  induction parts with
  | nil => simp [join, List.intercalate]
  | cons part parts ih =>
    cases parts with
    | nil => simp [join, List.intercalate]
    | cons next more =>
      rw [join] at ih ⊢
      rw [List.intercalate_cons_cons, oneLine_append, oneLine_append, ih, List.forall_mem_cons]
      simp [h]

/-! ### Numbers -/

theorem digitChar_ne_newline : ∀ n : Nat, n.digitChar ≠ '\n'
  | 0 | 1 | 2 | 3 | 4 | 5 | 6 | 7 | 8 | 9 | 10 | 11 | 12 | 13 | 14 | 15 | _ + 16 => by
    simp [Nat.digitChar]

theorem oneLine_toDigits {base : Nat} (h : 1 < base) (n : Nat) : OneLine (Nat.toDigits base n) := by
  induction n using Nat.strongRecOn with
  | ind n ih =>
    rw [Nat.toDigits_eq_if h]
    split
    · simp [digitChar_ne_newline]
    · rename_i hbase
      rw [oneLine_append]
      exact ⟨ih _ (Nat.div_lt_self (by omega) h), by simp [digitChar_ne_newline]⟩

theorem oneLine_ofNat (n : Nat) : OneLine (ofNat n) := oneLine_toDigits (by decide) n

theorem oneLine_hexadecimal (width n : Nat) : OneLine (hexadecimal width n) := by
  rw [hexadecimal, padZeros, oneLine_append]
  constructor
  · intro hmem
    exact absurd (List.eq_of_mem_replicate hmem) (by decide)
  · exact oneLine_toDigits (by decide) n

/-! ### Strings -/

theorem oneLine_escape16 (n : Nat) : OneLine (Json.escape16 n) := by
  simp [Json.escape16, oneLine_hexadecimal]

theorem oneLine_escapeChar (c : Char) : OneLine (Json.escapeChar c) := by
  by_cases hnewline : c = '\n'
  · subst hnewline
    decide
  · unfold Json.escapeChar
    repeat' split
    all_goals simp [oneLine_escape16, hnewline]

theorem oneLine_quote (text : Text) : OneLine (Json.quote text) := by
  simp only [Json.quote, oneLine_cons, oneLine_append, oneLine_flatMap]
  exact ⟨by decide, fun c _ => oneLine_escapeChar c, by decide, oneLine_nil⟩

/-! ### Words -/

theorem not_of_mem_fields {p : Char → Bool} {text field : Text} (h : field ∈ fields p text) :
    ∀ c ∈ field, p c = false := by
  induction text generalizing field with
  | nil =>
    rw [fields, List.mem_singleton] at h
    simp [h]
  | cons d text ih =>
    rw [fields] at h
    split at h
    · rcases List.mem_cons.mp h with rfl | h
      · simp
      · exact ih h
    · rename_i hd
      split at h
      · rw [List.mem_singleton] at h
        simpa [h] using hd
      · rename_i first more hfields
        rw [hfields] at ih
        rcases List.mem_cons.mp h with rfl | h
        · intro c hc
          rcases List.mem_cons.mp hc with rfl | hc
          · simpa using hd
          · exact ih List.mem_cons_self c hc
        · exact ih (List.mem_cons_of_mem _ h)

/-- The words of a text hold no line feed, since a line feed is a blank. -/
theorem oneLine_of_mem_words {text word : Text} (h : word ∈ text.words) : OneLine word := by
  intro hmem
  rw [words, List.mem_filter] at h
  exact absurd (not_of_mem_fields h.1 '\n' hmem) (by decide)

/-! ### Lines -/

/-- Lines that end with line feeds are split off, whatever text comes after them. -/
theorem splitOn_lines_append {lines : List Text} (h : ∀ line ∈ lines, OneLine line) (rest : Text) :
    (lines.flatMap (· ++ ['\n']) ++ rest).splitOn '\n' = lines ++ rest.splitOn '\n' := by
  induction lines with
  | nil => simp
  | cons line lines ih =>
    rw [List.flatMap_cons, List.append_assoc, List.append_assoc, List.singleton_append,
      List.splitOn_append_cons_self, ih fun l hl => h l (List.mem_cons_of_mem _ hl),
      List.splitOn_eq_singleton (h line List.mem_cons_self), List.singleton_append,
      List.cons_append]

/-- A text of lines that end with line feeds is split into these lines and an empty rest. -/
theorem splitOn_lines {lines : List Text} (h : ∀ line ∈ lines, OneLine line) :
    (lines.flatMap (· ++ ['\n'])).splitOn '\n' = lines ++ [[]] := by
  rw [← List.append_nil (lines.flatMap _), splitOn_lines_append h, List.splitOn_nil]

theorem oneLine_of_mem_splitOn {text line : Text} (h : line ∈ text.splitOn '\n') :
    OneLine line := by
  induction text generalizing line with
  | nil =>
    simp only [List.splitOn_nil, List.mem_singleton] at h
    simp [h]
  | cons c text ih =>
    rw [List.splitOn_cons_eq_if_modifyHead] at h
    split at h
    · rcases List.mem_cons.mp h with rfl | h
      · exact oneLine_nil
      · exact ih h
    · rename_i hc
      obtain ⟨first, more, hsplit⟩ := List.exists_cons_of_ne_nil (List.splitOn_ne_nil '\n' text)
      rw [hsplit] at h ih
      rcases List.mem_cons.mp h with rfl | h
      · exact oneLine_cons.mpr ⟨by simpa using hc, ih List.mem_cons_self⟩
      · exact ih (List.mem_cons_of_mem _ h)

end ForeignBindings.Text
