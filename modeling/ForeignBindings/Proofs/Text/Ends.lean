import ForeignBindings.Text.Blank

/-! The two ends of a text: what a text begins and finishes with decides what trimming leaves and
whether brackets enclose it. -/

namespace ForeignBindings

namespace Text

def Begins (p : Char → Prop) (text : Text) : Prop := ∃ c, text.head? = some c ∧ p c

def Finishes (p : Char → Prop) (text : Text) : Prop := ∃ c, text.getLast? = some c ∧ p c

/-- A character that is not white space. -/
def Solid (c : Char) : Prop := isBlank c = false

instance : DecidablePred Solid := fun c => inferInstanceAs (Decidable (isBlank c = false))

theorem Begins.mono {p q : Char → Prop} {text : Text} (h : Begins p text)
    (hpq : ∀ c, p c → q c) : Begins q text :=
  let ⟨c, hc, hp⟩ := h
  ⟨c, hc, hpq c hp⟩

theorem Finishes.mono {p q : Char → Prop} {text : Text} (h : Finishes p text)
    (hpq : ∀ c, p c → q c) : Finishes q text :=
  let ⟨c, hc, hp⟩ := h
  ⟨c, hc, hpq c hp⟩

theorem begins_cons {p : Char → Prop} {c : Char} {text : Text} (h : p c) : Begins p (c :: text) :=
  ⟨c, rfl, h⟩

theorem Begins.append {p : Char → Prop} {text : Text} (h : Begins p text) (more : Text) :
    Begins p (text ++ more) := by
  obtain ⟨c, hc, hp⟩ := h
  exact ⟨c, by rw [List.head?_append, hc, Option.some_or], hp⟩

theorem finishes_concat {p : Char → Prop} {c : Char} (text : Text) (h : p c) :
    Finishes p (text ++ [c]) :=
  ⟨c, List.getLast?_concat, h⟩

theorem Finishes.append {p : Char → Prop} {text : Text} (h : Finishes p text) (more : Text) :
    Finishes p (more ++ text) := by
  obtain ⟨c, hc, hp⟩ := h
  exact ⟨c, by rw [List.getLast?_append, hc, Option.some_or], hp⟩

theorem Finishes.cons {p : Char → Prop} {text : Text} (h : Finishes p text) (c : Char) :
    Finishes p (c :: text) :=
  h.append [c]

theorem Begins.ne_nil {p : Char → Prop} {text : Text} (h : Begins p text) : text ≠ [] := by
  rintro rfl
  obtain ⟨c, hc, -⟩ := h
  simp at hc

theorem Begins.cons_eq {p : Char → Prop} {text : Text} (h : Begins p text) :
    ∃ c rest, text = c :: rest ∧ p c := by
  obtain ⟨c, hc, hp⟩ := h
  obtain ⟨rest, rfl⟩ := List.head?_eq_some_iff.mp hc
  exact ⟨c, rest, rfl, hp⟩

theorem Finishes.concat_eq {p : Char → Prop} {text : Text} (h : Finishes p text) :
    ∃ front c, text = front ++ [c] ∧ p c := by
  obtain ⟨c, hc, hp⟩ := h
  obtain ⟨front, rfl⟩ := List.getLast?_eq_some_iff.mp hc
  exact ⟨front, c, rfl, hp⟩

/-! ### Trimming -/

theorem drop_length_takeWhile (p : Char → Bool) (text : Text) :
    text.drop (text.takeWhile p).length = text.dropWhile p := by
  have hdrop := @List.drop_left _ (text.takeWhile p) (text.dropWhile p)
  rwa [List.takeWhile_append_dropWhile] at hdrop

theorem trimStart_eq_self {text : Text} (h : text.Begins Solid) : text.trimStart = text := by
  obtain ⟨c, rest, rfl, hc⟩ := h.cons_eq
  exact List.dropWhile_cons_of_neg (by simpa [Solid] using hc)

theorem trimEnd_eq_self {text : Text} (h : text.Finishes Solid) : text.trimEnd = text := by
  obtain ⟨front, c, rfl, hc⟩ := h.concat_eq
  rw [trimEnd, List.reverse_append, List.reverse_singleton, List.singleton_append,
    List.dropWhile_cons_of_neg (by simpa [Solid] using hc)]
  simp

theorem trim_eq_self {text : Text} (hfirst : text.Begins Solid) (hlast : text.Finishes Solid) :
    text.trim = text := by
  rw [trim, trimStart_eq_self hfirst, trimEnd_eq_self hlast]

theorem trim_blank_cons {c : Char} (h : isBlank c = true) (text : Text) :
    trim (c :: text) = trim text := by
  rw [trim, trimStart, List.dropWhile_cons_of_pos h]
  rfl

theorem trimEnd_concat_blank {c : Char} (h : isBlank c = true) (text : Text) :
    trimEnd (text ++ [c]) = trimEnd text := by
  rw [trimEnd, List.reverse_append, List.reverse_singleton, List.singleton_append,
    List.dropWhile_cons_of_pos h]
  rfl

theorem trim_concat_blank {c : Char} (h : isBlank c = true) {text : Text}
    (hfirst : text.Begins Solid) : trim (text ++ [c]) = trim text := by
  rw [trim, trim, trimStart_eq_self (hfirst.append [c]), trimEnd_concat_blank h,
    trimStart_eq_self hfirst]

theorem trim_append_blanks {blanks : Text} (h : ∀ c ∈ blanks, isBlank c = true) (text : Text) :
    trim (text ++ blanks) = trim text := by
  have hblanks : (blanks ++ []).dropWhile isBlank = [] := List.dropWhile_append_of_pos h
  have hreverse : ∀ c ∈ blanks.reverse, isBlank c = true := fun c hc => h c (List.mem_reverse.mp hc)
  rw [trim, trim, trimStart, trimStart, List.dropWhile_append]
  split
  · rename_i hempty
    rw [← List.append_nil blanks, hblanks, List.isEmpty_iff.mp hempty]
  · rw [trimEnd, trimEnd, List.reverse_append, List.dropWhile_append_of_pos hreverse]

theorem trim_blanks_append {blanks : Text} (h : ∀ c ∈ blanks, isBlank c = true) (text : Text) :
    trim (blanks ++ text) = trim text := by
  rw [trim, trimStart, List.dropWhile_append_of_pos h]
  rfl

theorem trim_concat {c : Char} (h : Solid c) (text : Text) :
    trim (text ++ [c]) = text.trimStart ++ [c] := by
  have hstart : trimStart (text ++ [c]) = text.trimStart ++ [c] := by
    have hsolid : [c].dropWhile isBlank = [c] := trimStart_eq_self (begins_cons h)
    rw [trimStart, trimStart, List.dropWhile_append, hsolid]
    split
    · rename_i hempty
      rw [List.isEmpty_iff.mp hempty, List.nil_append]
    · rfl
  rw [trim, hstart, trimEnd_eq_self (finishes_concat _ h)]

/-- Blanks at the end of a text are all that trimming takes from a text after one that has none. -/
theorem trim_append {front : Text} (hfirst : front.Begins Solid) (hlast : front.Finishes Solid)
    (text : Text) : trim (front ++ text) = front ++ text.trimEnd := by
  have hfront : front.reverse.dropWhile isBlank = front.reverse :=
    List.reverse_eq_iff.mp (trimEnd_eq_self hlast)
  rw [trim, trimStart_eq_self (hfirst.append text), trimEnd, trimEnd, List.reverse_append,
    List.dropWhile_append, hfront]
  split
  · rename_i hempty
    rw [List.isEmpty_iff.mp hempty]
    simp
  · simp

/-- No blank ends the text. -/
def SolidEnd (text : Text) : Prop := ∀ c, text.getLast? = some c → Solid c

theorem solidEnd_of_finishes {text : Text} (h : text.Finishes Solid) : SolidEnd text := by
  obtain ⟨c, hc, hsolid⟩ := h
  intro d hd
  rw [hc, Option.some.injEq] at hd
  exact hd ▸ hsolid

theorem SolidEnd.of_append {front text : Text} (h : SolidEnd (front ++ text)) : SolidEnd text := by
  intro c hc
  exact h c (by rw [List.getLast?_append, hc, Option.some_or])

theorem SolidEnd.trimStart {text : Text} (h : SolidEnd text) : SolidEnd text.trimStart := by
  have hsplit : text.takeWhile isBlank ++ text.trimStart = text :=
    List.takeWhile_append_dropWhile
  rw [← hsplit] at h
  exact h.of_append

theorem SolidEnd.trim_eq {text : Text} (h : SolidEnd text) : text.trim = text.trimStart := by
  rw [trim]
  cases hlast : text.trimStart.getLast? with
  | none =>
    rw [List.getLast?_eq_none_iff.mp hlast]
    rfl
  | some c => exact trimEnd_eq_self ⟨c, hlast, h.trimStart c hlast⟩

/-- A text is its trimmed form with blanks before and after it. -/
theorem exists_eq_trim (text : Text) :
    ∃ before after : Text, text = before ++ text.trim ++ after ∧
      (∀ c ∈ before, isBlank c = true) ∧ ∀ c ∈ after, isBlank c = true := by
  refine ⟨text.takeWhile isBlank, (text.trimStart.reverse.takeWhile isBlank).reverse, ?_, ?_, ?_⟩
  · have hend : text.trim ++ (text.trimStart.reverse.takeWhile isBlank).reverse =
        text.trimStart := by
      rw [trim, trimEnd, ← List.reverse_append, List.takeWhile_append_dropWhile,
        List.reverse_reverse]
    rw [List.append_assoc, hend, trimStart, List.takeWhile_append_dropWhile]
  · exact List.all_eq_true.mp List.all_takeWhile
  · intro c hc
    exact List.all_eq_true.mp List.all_takeWhile c (List.mem_reverse.mp hc)

/-! ### Enclosing -/

def enclosed (opening closing : Char) (text : Text) : Text := opening :: (text ++ [closing])

@[simp] theorem inner_enclosed (opening closing : Char) (text : Text) :
    inner 1 (enclosed opening closing text) = text := by
  simp [inner, enclosed]

@[simp] theorem enclosedBy_enclosed (opening closing : Char) (text : Text) :
    enclosedBy opening closing (enclosed opening closing text) = true := by
  simp only [enclosed, enclosedBy, ← List.cons_append, List.getLast?_concat]
  simp

theorem enclosedBy_eq_false {opening closing : Char} {text : Text}
    (h : text.Begins (· ≠ opening)) : enclosedBy opening closing text = false := by
  obtain ⟨c, rest, rfl, hc⟩ := h.cons_eq
  simp [enclosedBy, hc]

theorem enclosedBy_eq_false_of_finishes {opening closing : Char} {text : Text}
    (h : text.Finishes (· ≠ closing)) : enclosedBy opening closing text = false := by
  obtain ⟨c, hc, hne⟩ := h
  simp [enclosedBy, hc, hne]

theorem exists_of_enclosedBy {opening closing : Char} {text : Text} (hne : opening ≠ closing)
    (h : enclosedBy opening closing text = true) :
    ∃ inside, text = enclosed opening closing inside := by
  simp only [enclosedBy, Bool.and_eq_true, beq_iff_eq] at h
  obtain ⟨rest, rfl⟩ := List.head?_eq_some_iff.mp h.1
  cases rest with
  | nil => exact absurd (by simpa using h.2) hne
  | cons c rest =>
    obtain ⟨front, hfront⟩ := List.getLast?_eq_some_iff.mp (List.getLast?_cons_cons ▸ h.2)
    exact ⟨front, by rw [hfront, enclosed]⟩

/-! ### Joining -/

@[simp] theorem join_nil (separator : Text) : join separator [] = [] := rfl

@[simp] theorem join_singleton (separator text : Text) : join separator [text] = text := by
  simp [join, List.intercalate]

theorem join_cons_cons (separator text next : Text) (more : List Text) :
    join separator (text :: next :: more) = text ++ separator ++ join separator (next :: more) :=
  List.intercalate_cons_cons

theorem Begins.join {p : Char → Prop} {separator text : Text} (h : Begins p text)
    (more : List Text) : Begins p (join separator (text :: more)) := by
  cases more with
  | nil => rwa [join_singleton]
  | cons next more =>
    rw [join_cons_cons, List.append_assoc]
    exact h.append _

theorem finishes_join {p : Char → Prop} {separator : Text} {texts : List Text} (hne : texts ≠ [])
    (h : ∀ text ∈ texts, Finishes p text) : Finishes p (Text.join separator texts) := by
  induction texts with
  | nil => exact absurd rfl hne
  | cons text more ih =>
    cases more with
    | nil =>
      rw [join_singleton]
      exact h text (by simp)
    | cons next more =>
      rw [join_cons_cons]
      exact (ih (by simp) fun t ht => h t (by simp [ht])).append _

end Text

/-! ### Characters of words -/

/-- A character of a word: an ASCII letter or digit, or an underscore. -/
def isWordChar (c : Char) : Bool := c.isAlphanum || c == '_'

theorem ne_of_isWordChar {c d : Char} (hc : isWordChar c = true) (hd : isWordChar d = false) :
    c ≠ d := by
  rintro rfl
  exact Bool.false_ne_true (hd.symm.trans hc)

theorem singleton_ne_of_isWordChar {c d : Char} (hc : isWordChar c = true)
    (hd : isWordChar d = false) : [d] ≠ [c] := by
  intro heq
  exact ne_of_isWordChar hc hd (List.cons.inj heq).1.symm

theorem solid_of_isWordChar {c : Char} (h : isWordChar c = true) : Text.Solid c := by
  have hbounds : 48 ≤ c.toNat ∧ c.toNat ≤ 122 := by
    unfold isWordChar Char.isAlphanum Char.isAlpha Char.isUpper Char.isLower Char.isDigit at h
    simp only [Bool.or_eq_true, Bool.and_eq_true, decide_eq_true_eq, beq_iff_eq, ge_iff_le,
      UInt32.le_iff_toNat_le] at h
    change (((65 ≤ c.toNat ∧ c.toNat ≤ 90) ∨ (97 ≤ c.toNat ∧ c.toNat ≤ 122)) ∨
      (48 ≤ c.toNat ∧ c.toNat ≤ 57)) ∨ c = '_' at h
    rcases h with ((h | h) | h) | rfl
    · omega
    · omega
    · omega
    · decide
  simp only [Text.Solid, isBlank, Bool.or_eq_false_iff, Bool.and_eq_false_iff,
    decide_eq_false_iff_not, beq_eq_false_iff_ne]
  omega

end ForeignBindings
