import ForeignBindings.Nesting.Literal
import ForeignBindings.Proofs.Text.Ends

/-! How far literals go.  A literal never goes beyond the text and ends with its quote.  A text
without quotes changes no literal before it that is closed, and completes none that is not: only an
open string takes it in. -/

namespace ForeignBindings

open Text

/-! ### Strings -/

theorem stringTail_cons {quote c : Char} (hc : c ≠ '\x5c') (rest : Text) :
    stringTail quote (c :: rest) = if c = quote then (1, true) else
      ((stringTail quote rest).1 + 1, (stringTail quote rest).2) := by
  rw [stringTail]
  · exact fun h => absurd h hc
  · exact fun _ _ h => absurd h hc

theorem stringTail_le (quote : Char) (text : Text) : (stringTail quote text).1 ≤ text.length := by
  fun_induction stringTail quote text with
  | case1 => exact Nat.le_refl 0
  | case2 => exact Nat.le_refl 1
  | case3 c rest n closed htail ih =>
    rw [htail] at ih
    simp only [List.length_cons]
    omega
  | case4 => simp
  | case5 c rest h₁ h₂ hc n closed htail ih =>
    rw [htail] at ih
    simp only [List.length_cons]
    omega

theorem finishes_stringTail {quote : Char} {text : Text}
    (h : (stringTail quote text).1 < text.length) :
    Finishes (· = quote) (text.take (stringTail quote text).1) := by
  fun_induction stringTail quote text with
  | case1 => cases h
  | case2 => exact absurd h (Nat.lt_irrefl 1)
  | case3 c rest n closed htail ih =>
    rw [htail] at ih
    simp only [List.length_cons] at h
    exact ((ih (by simpa using h)).cons c).cons '\x5c'
  | case4 => exact finishes_concat [] rfl
  | case5 c rest h₁ h₂ hc n closed htail ih =>
    rw [htail] at ih
    exact (ih (by simpa using h)).cons c

theorem stringTail_of_not_mem {quote : Char} {text : Text} (h : quote ∉ text) :
    stringTail quote text = (text.length, false) := by
  fun_induction stringTail quote text with
  | case1 => rfl
  | case2 => rfl
  | case3 c rest n closed htail ih =>
    simp only [List.mem_cons, not_or] at h
    obtain ⟨rfl, rfl⟩ := Prod.mk.inj (htail.symm.trans (ih h.2.2))
    rfl
  | case4 => simp at h
  | case5 c rest h₁ h₂ hc n closed htail ih =>
    simp only [List.mem_cons, not_or] at h
    obtain ⟨rfl, rfl⟩ := Prod.mk.inj (htail.symm.trans (ih h.2))
    rfl

/-- A string that is closed ends where it did, and one that is not takes in what stands after it. -/
theorem stringTail_append {quote : Char} {more : Text} (h : quote ∉ more) (text : Text) :
    stringTail quote (text ++ more) =
      if (stringTail quote text).2 then stringTail quote text
      else ((text ++ more).length, false) := by
  fun_induction stringTail quote text with
  | case1 => exact stringTail_of_not_mem h
  | case2 =>
    cases more with
    | nil => rfl
    | cons c more =>
      have hmore := stringTail_of_not_mem fun hmem => h (List.mem_cons_of_mem c hmem)
      simp [stringTail, hmore]
  | case3 c rest n closed htail ih =>
    rw [htail] at ih
    simp only [List.cons_append, stringTail, ih]
    cases closed <;> simp
  | case4 rest hend hescape =>
    have hquote : quote ≠ '\x5c' := by
      rintro rfl
      cases rest with
      | nil => exact hend rfl rfl
      | cons c rest => exact hescape c rest rfl rfl
    rw [List.cons_append, stringTail_cons hquote, if_pos rfl]
    rfl
  | case5 c rest hend hescape hc n closed htail ih =>
    have hchar : c ≠ '\x5c' := by
      rintro rfl
      cases rest with
      | nil => exact hend rfl rfl
      | cons d rest => exact hescape d rest rfl rfl
    rw [htail] at ih
    rw [List.cons_append, stringTail_cons hchar, if_neg hc, ih]
    cases closed <;> simp

/-! ### Character literals -/

theorem charTail?_le {text : Text} {n : Nat} (h : charTail? text = some n) : n ≤ text.length := by
  rw [charTail?.eq_def] at h
  split at h
  · cases h
  · rename_i rest
    dsimp only at h
    split at h
    · rename_i hquote
      have hinside := (List.getElem?_eq_some_iff.mp hquote).1
      rw [List.length_drop] at hinside
      rw [List.length_cons, ← Option.some.inj h]
      omega
    · cases h
  · split at h
    · rename_i hquote
      obtain ⟨more, rfl⟩ := List.head?_eq_some_iff.mp hquote.2.2
      rw [← Option.some.inj h]
      simp
    · cases h

theorem finishes_take {text : Text} {k : Nat} {c : Char} (h : text[k]? = some c) :
    Finishes (· = c) (text.take (k + 1)) := by
  rw [List.take_add_one, h]
  exact finishes_concat _ rfl

theorem finishes_charTail? {text : Text} {n : Nat} (h : charTail? text = some n) :
    Finishes (· = '\x27') (text.take n) := by
  rw [charTail?.eq_def] at h
  split at h
  · cases h
  · rename_i rest
    dsimp only at h
    split at h
    · rename_i hquote
      obtain rfl := Option.some.inj h
      cases rest with
      | nil => simp at hquote
      | cons d more =>
        rw [List.drop_one, List.tail_cons] at hquote ⊢
        exact ((finishes_take hquote).cons d).cons '\x5c'
    · cases h
  · rename_i c rest _
    split at h
    · rename_i hquote
      obtain ⟨more, rfl⟩ := List.head?_eq_some_iff.mp hquote.2.2
      obtain rfl := Option.some.inj h
      exact finishes_concat [c] rfl
    · cases h

theorem charTail?_escaped (c : Char) (rest : Text) :
    charTail? ('\x5c' :: c :: rest) =
      if (rest.dropWhile fun c => c != '\x27' && c != '\n').head? = some '\x27' then
        some ((rest.takeWhile fun c => c != '\x27' && c != '\n').length + 3)
      else none := by
  rw [charTail?, ← drop_length_takeWhile, List.head?_drop]
  rfl

theorem charTail?_single {c : Char} (hc : c ≠ '\x5c') (rest : Text) :
    charTail? (c :: rest) =
      if c ≠ '\x27' ∧ c ≠ '\n' ∧ rest.head? = some '\x27' then some 2 else none := by
  rw [charTail?]
  exact fun h => hc h

theorem charTail?_of_not_mem {text : Text} (h : '\x27' ∉ text) : charTail? text = none := by
  cases htail : charTail? text with
  | none => rfl
  | some n =>
    obtain ⟨c, hlast, rfl⟩ := finishes_charTail? htail
    exact absurd (List.mem_of_mem_take (List.mem_of_getLast? hlast)) h

/-- A text without primes neither completes nor changes a character literal. -/
theorem charTail?_append {more : Text} (h : '\x27' ∉ more) (text : Text) :
    charTail? (text ++ more) = charTail? text := by
  rcases text with _ | ⟨c, _ | ⟨d, rest⟩⟩
  · exact charTail?_of_not_mem h
  · by_cases hc : c = '\x5c'
    · subst hc
      exact charTail?_of_not_mem (by simpa using h)
    · have hhead : more.head? ≠ some '\x27' := fun hhead => h (List.mem_of_head? hhead)
      rw [List.singleton_append, charTail?_single hc, charTail?_single hc]
      simp [hhead]
  · by_cases hc : c = '\x5c'
    · subst hc
      simp only [List.cons_append]
      rw [charTail?_escaped, charTail?_escaped, List.dropWhile_append, List.takeWhile_append]
      have hlength := congrArg List.length
        (@List.takeWhile_append_dropWhile _ (fun c => c != '\x27' && c != '\n') rest)
      rw [List.length_append] at hlength
      cases hstop : rest.dropWhile fun c => c != '\x27' && c != '\n' with
      | nil =>
        have hmore : (more.dropWhile fun c => c != '\x27' && c != '\n').head? ≠ some '\x27' :=
          fun hhead => h (List.dropWhile_subset _ (List.mem_of_head? hhead))
        simp [hmore]
      | cons stop after =>
        rw [hstop, List.length_cons] at hlength
        have hne : (rest.takeWhile fun c => c != '\x27' && c != '\n').length ≠ rest.length := by
          omega
        simp [hne]
    · rw [List.cons_append, List.cons_append, charTail?_single hc, charTail?_single hc]
      rfl

/-! ### Literals of both kinds -/

theorem literalTail?_le {c : Char} {rest : Text} {n : Nat}
    (h : literalTail? c rest = some n) : n ≤ rest.length := by
  rw [literalTail?] at h
  split at h
  · exact charTail?_le h
  · split at h
    · rw [← Option.some.inj h]
      exact stringTail_le c rest
    · cases h

/-- No character of the text is a quote. -/
def Quoteless (text : Text) : Prop := ∀ c ∈ text, isQuote c = false

instance : DecidablePred Quoteless := List.decidableBAll (fun c => isQuote c = false)

theorem Quoteless.not_mem {text : Text} (h : Quoteless text) {quote : Char}
    (hquote : isQuote quote = true) : quote ∉ text := by
  intro hmem
  rw [h quote hmem] at hquote
  cases hquote

/-- A string that opens with the character is still open where the text after it ends. -/
structure StaysOpen (c : Char) (rest : Text) : Prop where
  ne_prime : c ≠ '\x27'
  quote : isQuote c = true
  unclosed : (stringTail c rest).2 = false

section Quoteless

variable {more : Text} (h : Quoteless more)
include h

theorem literalTail?_append {c : Char} {rest : Text} (hopen : ¬StaysOpen c rest) :
    literalTail? c (rest ++ more) = literalTail? c rest := by
  by_cases hprime : c = '\x27'
  · rw [literalTail?, literalTail?, if_pos hprime, if_pos hprime,
      charTail?_append (h.not_mem rfl)]
  · by_cases hquote : isQuote c = true
    · have hclosed : (stringTail c rest).2 = true := by
        rw [← Bool.not_eq_false]
        exact fun hunclosed => hopen ⟨hprime, hquote, hunclosed⟩
      rw [literalTail?, literalTail?, if_neg hprime, if_pos hquote, if_neg hprime, if_pos hquote,
        stringTail_append (h.not_mem hquote), if_pos hclosed]
    · rw [literalTail?, literalTail?, if_neg hprime, if_neg hquote, if_neg hprime, if_neg hquote]

theorem literalTail?_staysOpen {c : Char} {rest : Text} (hopen : StaysOpen c rest) :
    literalTail? c (rest ++ more) = some (rest ++ more).length := by
  rw [literalTail?, if_neg hopen.ne_prime, if_pos hopen.quote,
    stringTail_append (h.not_mem hopen.quote), hopen.unclosed]
  rfl

end Quoteless

end ForeignBindings
