import ForeignBindings.Json.Printer
import ForeignBindings.Proofs.Text.Ends
import Mathlib.Data.Nat.Digits.Defs

/-! Texts that are read back whatever stands after them: numbers up to a character that is no digit,
quoted strings, and rows of such texts. -/

namespace ForeignBindings.Text

/-! ### Rows -/

/-- Two texts that end at the first of a character end at the same place. -/
theorem cut_unique {c : Char} {text text' s t : Text} (htext : c ∉ text) (htext' : c ∉ text')
    (h : text ++ c :: s = text' ++ c :: t) : text = text' ∧ s = t := by
  induction text generalizing text' with
  | nil =>
    cases text' with
    | nil => exact ⟨rfl, (List.cons.inj h).2⟩
    | cons d' text' => exact absurd (List.cons.inj h).1 (List.ne_of_not_mem_cons htext')
  | cons d text ih =>
    cases text' with
    | nil => exact absurd (List.cons.inj h).1.symm (List.ne_of_not_mem_cons htext)
    | cons d' text' =>
      obtain ⟨hd, hrest⟩ := List.cons.inj h
      obtain ⟨rfl, hst⟩ := ih (List.not_mem_of_not_mem_cons htext)
        (List.not_mem_of_not_mem_cons htext') hrest
      exact ⟨by rw [hd], hst⟩

/-- One of two words of which neither begins the other is read back. -/
theorem word_unique {words : List Text} (hwords : ∀ v ∈ words, ∀ w ∈ words, v <+: w → v = w)
    {v w s t : Text} (hv : v ∈ words) (hw : w ∈ words) (h : v ++ s = w ++ t) : v = w ∧ s = t := by
  have heq : v = w := by
    rcases List.prefix_or_prefix_of_prefix ⟨s, h⟩ (List.prefix_append w t) with hvw | hwv
    · exact hwords v hv w hw hvw
    · exact (hwords w hw v hv hwv).symm
  rw [heq] at h
  exact ⟨heq, List.append_cancel_left h⟩

section Rows

variable {α β : Type} {form : α → Text} {value : α → β} {c : Char} {xs ys : List α} {s t : Text}

/-- A row of texts, each of which is read back and begins with another character than the one after
the row, is read back. -/
theorem flatMap_unique
    (hform : ∀ x ∈ xs, ∀ y ∈ ys, ∀ s t, form x ++ s = form y ++ t → value x = value y ∧ s = t)
    (hxs : ∀ x ∈ xs, (form x).Begins (· ≠ c)) (hys : ∀ y ∈ ys, (form y).Begins (· ≠ c))
    (h : xs.flatMap form ++ c :: s = ys.flatMap form ++ c :: t) :
    xs.map value = ys.map value ∧ s = t := by
  have hclose {x : α} {more : Text} {r : Text} (hx : (form x).Begins (· ≠ c)) :
      c :: r ≠ form x ++ more := by
    obtain ⟨d, rest, hd, hne⟩ := hx.cons_eq
    rw [hd]
    exact fun heq => hne (List.cons.inj heq).1.symm
  induction xs generalizing ys with
  | nil =>
    cases ys with
    | nil => exact ⟨rfl, (List.cons.inj h).2⟩
    | cons y ys =>
      rw [List.flatMap_cons, List.append_assoc] at h
      exact absurd h (hclose (hys y List.mem_cons_self))
  | cons x xs ih =>
    cases ys with
    | nil =>
      rw [List.flatMap_cons, List.append_assoc] at h
      exact absurd h.symm (hclose (hxs x List.mem_cons_self))
    | cons y ys =>
      rw [List.flatMap_cons, List.flatMap_cons, List.append_assoc, List.append_assoc] at h
      obtain ⟨hvalue, h⟩ := hform x List.mem_cons_self y List.mem_cons_self _ _ h
      obtain ⟨hvalues, hst⟩ := ih
        (fun x hx y hy => hform x (List.mem_cons_of_mem _ hx) y (List.mem_cons_of_mem _ hy))
        (fun x hx => hxs x (List.mem_cons_of_mem _ hx))
        (fun y hy => hys y (List.mem_cons_of_mem _ hy)) h
      rw [List.map_cons, List.map_cons, hvalue, hvalues]
      exact ⟨rfl, hst⟩

theorem join_cons (separator text : Text) (more : List Text) :
    join separator (text :: more) = text ++ more.flatMap (separator ++ ·) := by
  induction more generalizing text with
  | nil => simp
  | cons next more ih => rw [join_cons_cons, ih, List.flatMap_cons, List.append_assoc]; simp

/-- Texts with separators between them are read back if neither they nor the separators begin with
the character after them. -/
theorem join_unique {separator : Text} (hseparator : separator.Begins (· ≠ c))
    (hform : ∀ x ∈ xs, ∀ y ∈ ys, ∀ s t, form x ++ s = form y ++ t → value x = value y ∧ s = t)
    (hxs : ∀ x ∈ xs, (form x).Begins (· ≠ c)) (hys : ∀ y ∈ ys, (form y).Begins (· ≠ c))
    (h : join separator (xs.map form) ++ c :: s = join separator (ys.map form) ++ c :: t) :
    xs.map value = ys.map value ∧ s = t := by
  cases xs with
  | nil =>
    cases ys with
    | nil => exact ⟨rfl, (List.cons.inj h).2⟩
    | cons y ys =>
      obtain ⟨d, rest, hd, hne⟩ := ((hys y List.mem_cons_self).join (ys.map form)).cons_eq
      rw [List.map_cons, hd] at h
      exact absurd (List.cons.inj h).1.symm hne
  | cons x xs =>
    cases ys with
    | nil =>
      obtain ⟨d, rest, hd, hne⟩ := ((hxs x List.mem_cons_self).join (xs.map form)).cons_eq
      rw [List.map_cons, hd] at h
      exact absurd (List.cons.inj h).1 hne
    | cons y ys =>
      rw [List.map_cons, List.map_cons, join_cons, join_cons, List.append_assoc, List.append_assoc,
        List.flatMap_map, List.flatMap_map] at h
      obtain ⟨hvalue, h⟩ := hform x List.mem_cons_self y List.mem_cons_self _ _ h
      have hmore : ∀ x ∈ xs, ∀ y ∈ ys, ∀ s t, separator ++ form x ++ s = separator ++ form y ++ t →
          value x = value y ∧ s = t := by
        intro x hx y hy s t h
        rw [List.append_assoc, List.append_assoc] at h
        exact hform x (List.mem_cons_of_mem _ hx) y (List.mem_cons_of_mem _ hy) s t
          (List.append_cancel_left h)
      obtain ⟨hvalues, hst⟩ := @flatMap_unique _ _ (fun x => separator ++ form x) value c xs ys s t
        hmore (fun x _ => hseparator.append _) (fun y _ => hseparator.append _) h
      rw [List.map_cons, List.map_cons, hvalue, hvalues]
      exact ⟨rfl, hst⟩

end Rows

/-! ### Numbers -/

theorem ofNat_injective {m n : Nat} (h : ofNat m = ofNat n) : m = n := by
  have hdigits := congrArg (Nat.ofDigitChars 10 · 0) h
  simpa only [ofNat, Nat.ofDigitChars_ten_toDigits] using hdigits

theorem not_mem_ofNat {c : Char} (hc : c.isDigit = false) (n : Nat) : c ∉ ofNat n := by
  intro hmem
  rw [Nat.isDigit_of_mem_toDigits (by decide) (by decide) hmem] at hc
  cases hc

/-- The last digit of a hexadecimal number of two or more places is that of the remainder. -/
theorem hexadecimal_succ (width n : Nat) :
    hexadecimal (width + 2) n = hexadecimal (width + 1) (n / 16) ++ [(n % 16).digitChar] := by
  unfold hexadecimal padZeros
  rw [Nat.toDigits_eq_if (by decide)]
  split
  · rename_i hlt
    rw [Nat.div_eq_of_lt hlt, Nat.mod_eq_of_lt hlt, Nat.toDigits_zero]
    simp [List.replicate_succ']
  · have hpad (k : Nat) : width + 2 - (k + 1) = width + 1 - k := by omega
    rw [List.length_append, List.length_singleton, hpad, List.append_assoc]

theorem digitChar_injective {m n : Nat} (hm : m < 16) (hn : n < 16)
    (h : m.digitChar = n.digitChar) : m = n := by
  have hall : ∀ m < 16, ∀ n < 16, m.digitChar = n.digitChar → m = n := by decide
  exact hall m hm n hn h

theorem hexadecimal_injective {width m n : Nat} (hm : m < 16 ^ (width + 1))
    (hn : n < 16 ^ (width + 1)) (h : hexadecimal (width + 1) m = hexadecimal (width + 1) n) :
    m = n := by
  induction width generalizing m n with
  | zero =>
    have hone {k : Nat} (hk : k < 16) : hexadecimal 1 k = [k.digitChar] := by
      simp [hexadecimal, padZeros, Nat.toDigits_of_lt_base hk]
    rw [Nat.zero_add, Nat.pow_one] at hm hn
    rw [hone hm, hone hn] at h
    exact digitChar_injective hm hn (List.singleton_inj.mp h)
  | succ width ih =>
    rw [hexadecimal_succ, hexadecimal_succ] at h
    obtain ⟨hfront, hlast⟩ := List.append_inj' h rfl
    have hdiv := ih (Nat.div_lt_of_lt_mul (by rwa [Nat.pow_succ, Nat.mul_comm] at hm))
      (Nat.div_lt_of_lt_mul (by rwa [Nat.pow_succ, Nat.mul_comm] at hn)) hfront
    have hmod := digitChar_injective (Nat.mod_lt m (by decide)) (Nat.mod_lt n (by decide))
      (List.singleton_inj.mp hlast)
    omega

theorem length_hexadecimal {width n : Nat} (h : n < 16 ^ (width + 1)) :
    (hexadecimal (width + 1) n).length = width + 1 := by
  have hlength := (Nat.length_toDigits_le_iff (b := 16) (by decide) (Nat.succ_pos width)).mpr h
  rw [hexadecimal, padZeros, List.length_append, List.length_replicate]
  omega

/-! ### Strings -/

theorem escape16_unique {m n : Nat} {s t : Text} (hm : m < 0x10000) (hn : n < 0x10000)
    (h : Json.escape16 m ++ s = Json.escape16 n ++ t) : m = n ∧ s = t := by
  have h' : hexadecimal 4 m ++ s = hexadecimal 4 n ++ t := by
    simpa [Json.escape16] using h
  obtain ⟨hhex, hst⟩ := List.append_inj h'
    ((@length_hexadecimal 3 m hm).trans (@length_hexadecimal 3 n hn).symm)
  exact ⟨@hexadecimal_injective 3 m n hm hn hhex, hst⟩

/-- The characters that have an escape of their own, and the letters of these. -/
def letterEscapes : List (Char × Char) :=
  [('\x22', '\x22'), ('\x5c', '\x5c'), ('\n', 'n'), ('\r', 'r'), ('\t', 't'), ('\x08', 'b'),
   ('\x0c', 'f')]

/-- The forms of a character in a string. -/
inductive Escaped (c : Char) : Text → Prop
  | plain (hquote : c ≠ '\x22') (hslash : c ≠ '\x5c') : Escaped c [c]
  | letter {e : Char} (h : (c, e) ∈ letterEscapes) : Escaped c ['\x5c', e]
  | unit (h : c.toNat < 0x10000) : Escaped c (Json.escape16 c.toNat)
  | pair {offset : Nat} (h : c.toNat = 0x10000 + offset) :
      Escaped c (Json.escape16 (0xd800 + offset / 0x400) ++
        Json.escape16 (0xdc00 + offset % 0x400))

theorem escaped_escapeChar (c : Char) : Escaped c (Json.escapeChar c) := by
  have hletter {d e : Char} (heq : c = d) (h : (d, e) ∈ letterEscapes) :
      Escaped c ['\x5c', e] := .letter (heq ▸ h)
  unfold Json.escapeChar
  split
  · rename_i h
    rcases h with rfl | rfl
    · exact .letter (by decide)
    · exact .letter (by decide)
  rename_i hspecial
  rw [not_or] at hspecial
  split
  · rename_i h
    exact hletter h (by decide)
  split
  · rename_i h
    exact hletter h (by decide)
  split
  · rename_i h
    exact hletter h (by decide)
  split
  · rename_i h
    exact hletter h (by decide)
  split
  · rename_i h
    exact hletter h (by decide)
  split
  · exact .plain hspecial.1 hspecial.2
  split
  · rename_i h
    exact .unit h
  · rename_i h
    exact .pair (by omega)

theorem not_surrogate (c : Char) : c.toNat < 0xd800 ∨ 0xdfff < c.toNat ∧ c.toNat < 0x110000 :=
  c.valid

theorem Escaped.unique {c d : Char} {text text' s t : Text} (hc : Escaped c text)
    (hd : Escaped d text') (h : text ++ s = text' ++ t) : c = d ∧ s = t := by
  have hletter : ∀ p ∈ letterEscapes, ∀ q ∈ letterEscapes, p.2 = q.2 → p.1 = q.1 := by decide
  have hu : ∀ p ∈ letterEscapes, p.2 ≠ 'u' := by decide
  have hcvalid := not_surrogate c
  have hdvalid := not_surrogate d
  cases hc with
  | plain hquote hslash =>
    cases hd with
    | plain => exact List.cons.inj h
    | letter | unit | pair => exact absurd (List.cons.inj h).1 hslash
  | @letter e he =>
    cases hd with
    | plain hquote hslash => exact absurd (List.cons.inj h).1.symm hslash
    | @letter f hf =>
      obtain ⟨hef, hst⟩ := List.cons.inj (List.cons.inj h).2
      exact ⟨hletter _ he _ hf hef, hst⟩
    | unit | pair => exact absurd (List.cons.inj (List.cons.inj h).2).1 (hu _ he)
  | unit hunit =>
    cases hd with
    | plain hquote hslash => exact absurd (List.cons.inj h).1.symm hslash
    | letter hf => exact absurd (List.cons.inj (List.cons.inj h).2).1.symm (hu _ hf)
    | unit hunit' =>
      obtain ⟨heq, hst⟩ := escape16_unique hunit hunit' h
      exact ⟨Char.toNat_inj.mp heq, hst⟩
    | pair hpair =>
      rw [List.append_assoc] at h
      have heq := (escape16_unique hunit (by omega) h).1
      omega
  | @pair offset hpair =>
    rw [List.append_assoc] at h
    cases hd with
    | plain hquote hslash => exact absurd (List.cons.inj h).1.symm hslash
    | letter hf => exact absurd (List.cons.inj (List.cons.inj h).2).1.symm (hu _ hf)
    | unit hunit =>
      have heq := (escape16_unique (by omega) hunit h).1
      omega
    | @pair offset' hpair' =>
      rw [List.append_assoc] at h
      obtain ⟨hhigh, h⟩ := escape16_unique (by omega) (by omega) h
      obtain ⟨hlow, hst⟩ := escape16_unique (by omega) (by omega) h
      exact ⟨Char.toNat_inj.mp (by omega), hst⟩

theorem Escaped.begins {c : Char} {text : Text} (h : Escaped c text) :
    text.Begins (· ≠ '\x22') := by
  cases h with
  | plain hquote _ => exact begins_cons hquote
  | letter | unit | pair => exact begins_cons (by decide)

/-- A string in quotes is read back. -/
theorem quote_unique {text text' s t : Text} (h : Json.quote text ++ s = Json.quote text' ++ t) :
    text = text' ∧ s = t := by
  have hbody : text.flatMap Json.escapeChar ++ '\x22' :: s =
      text'.flatMap Json.escapeChar ++ '\x22' :: t := by
    simpa [Json.quote] using h
  have hbegins : ∀ c, (Json.escapeChar c).Begins (· ≠ '\x22') :=
    fun c => (escaped_escapeChar c).begins
  have hunique := @flatMap_unique _ _ Json.escapeChar id '\x22' text text' s t
    (fun c _ d _ s t h => (escaped_escapeChar c).unique (escaped_escapeChar d) h)
    (fun c _ => hbegins c) (fun d _ => hbegins d) hbody
  simpa using hunique

end ForeignBindings.Text
