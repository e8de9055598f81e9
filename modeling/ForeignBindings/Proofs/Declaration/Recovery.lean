import Mathlib.Data.Bool.AllAny
import ForeignBindings.Proofs.Declaration.Written

/-! A declaration after any text.  The scan finds a declaration that is written on a line of its
own, whatever stands before it, unless an earlier attempt captures its keyword in a type. -/

namespace ForeignBindings

open Lexer

namespace WrittenDeclaration

variable (w : WrittenDeclaration)

theorem after_eq {prior : Text} {before after : List Token} {keyword : Token}
    (htokens : tokenize (prior ++ '\n' :: w.text) = before ++ keyword :: after)
    (hkeyword : keyword.lexeme = .external)
    (hstart : keyword.start = Position.start.advance (prior ++ ['\n'])) :
    ∃ p, after = tokensFrom [] p (' ' :: (w.name ++ ':' :: w.afterColon)) := by
  obtain ⟨front, c, rest, n, hsource, -, hread, -, hplace, hafter⟩ :=
    tokensFrom_eq_append htokens (by simp [hkeyword])
  have hoffset := congrArg Position.offset (hplace.symm.trans hstart)
  rw [Position.offset_advance, Position.offset_advance] at hoffset
  have hsplit : prior ++ ['\n'] ++ w.text = front ++ c :: rest := by simpa using hsource
  obtain ⟨-, htext⟩ := List.append_inj hsplit (by omega)
  obtain ⟨m, hword, -, hdrop⟩ :=
    read_word_append (by decide) (by decide) (by simp; decide) htext
  obtain rfl : n = m := (Prod.mk.inj (hread.symm.trans hword)).2
  exact ⟨_, hafter.trans (by rw [hdrop])⟩

end WrittenDeclaration

/-! ### Recovery -/

/-- After any text, the scan finds a declaration on a line of its own, whose keyword is read as a
keyword, exactly if no earlier attempt captures the keyword in a type. -/
theorem mem_scan_iff_not_captured (file prior : Text) (w : WrittenDeclaration) {keyword : Token}
    (hmem : keyword ∈ tokenize (prior ++ '\n' :: w.text)) (hkeyword : keyword.lexeme = .external)
    (hstart : keyword.start = Position.start.advance (prior ++ ['\n'])) :
    (∃ d ∈ scan file (prior ++ '\n' :: w.text), d.name = w.name ∧ d.typeText = w.type ∧
        d.binding = w.binding ∧ d.line = prior.count '\n' + 2 ∧ d.column = 1) ↔
      ¬Captured .empty (tokenize (prior ++ '\n' :: w.text)) keyword := by
  obtain ⟨hline, hcolumn⟩ := Position.advance_newline .start prior
  rw [← hstart] at hline hcolumn
  have hfirst : keyword.start.line = prior.count '\n' + 2 := by
    rw [hline, show Position.start.line = 1 from rfl]
    omega
  constructor
  · rintro ⟨d, hd, -, -, -, hdline, hdcolumn⟩ hcaptured
    obtain ⟨pending, first, after, hruns, hdeclared⟩ := mem_declarations_iff.mp hd
    obtain ⟨-, -, hplace⟩ := declared_eq_some hdeclared
    have hfirstMem : first ∈ tokenize (prior ++ '\n' :: w.text) :=
      hruns.suffix.subset List.mem_cons_self
    obtain rfl : first = keyword :=
      eq_of_start_eq hfirstMem hmem (hplace.1.symm.trans (hdline.trans hfirst.symm))
        (hplace.2.symm.trans (hdcolumn.trans hcolumn.symm))
    exact not_runs_of_captured (nodup_tokenize _) hcaptured hruns
  · intro hfree
    obtain ⟨before, after, htokens⟩ := List.append_of_mem hmem
    obtain ⟨p, rfl⟩ := w.after_eq htokens hkeyword hstart
    rcases runs_or_captured .empty htokens hkeyword with ⟨pending, hruns⟩ | hcaptured
    · have hdeclared := w.declared_afterKeyword file pending hkeyword p
      refine ⟨_, mem_declarations_iff.mpr ⟨pending, keyword, _, hruns, hdeclared⟩, rfl, rfl, rfl,
        hfirst, hcolumn⟩
    · exact absurd hcaptured hfree

/-- A declaration of an integer. -/
def WrittenDeclaration.plain : WrittenDeclaration :=
  .ofTexts ['b'] "int".toList ['b'] (by decide) (by decide) (by decide)
    ⟨by decide, List.all_iff_forall_prop.mp (by decide), by decide +kernel, by decide +kernel⟩
    (by decide)

/-- A type whose bracket stays open captures no declaration after it. -/
theorem not_captured_after_open_bracket :
    ∃ keyword ∈ tokenize ("external a: (foo".toList ++ '\n' :: WrittenDeclaration.plain.text),
      keyword.lexeme = .external ∧
      keyword.start = Position.start.advance ("external a: (foo".toList ++ ['\n']) ∧
      ¬Captured .empty
        (tokenize ("external a: (foo".toList ++ '\n' :: WrittenDeclaration.plain.text))
        keyword := by
  obtain ⟨keyword, hmem, hkeyword, hstart⟩ : ∃ keyword ∈
      tokenize ("external a: (foo".toList ++ '\n' :: WrittenDeclaration.plain.text),
      keyword.lexeme = .external ∧
      keyword.start = Position.start.advance ("external a: (foo".toList ++ ['\n']) := by
    decide +kernel
  refine ⟨keyword, hmem, hkeyword, hstart, ?_⟩
  exact (mem_scan_iff_not_captured [] _ WrittenDeclaration.plain hmem hkeyword hstart).mp
    (by decide +kernel)

/-- A type without an equals sign captures the declaration after it. -/
theorem not_mem_scan_after_missing_assign :
    (∃ keyword ∈ tokenize ("external a: foo".toList ++ '\n' :: WrittenDeclaration.plain.text),
      keyword.lexeme = .external ∧
      keyword.start = Position.start.advance ("external a: foo".toList ++ ['\n'])) ∧
    ¬∃ d ∈ scan [] ("external a: foo".toList ++ '\n' :: WrittenDeclaration.plain.text),
      d.name = WrittenDeclaration.plain.name ∧ d.typeText = WrittenDeclaration.plain.type ∧
      d.binding = WrittenDeclaration.plain.binding ∧
      d.line = "external a: foo".toList.count '\n' + 2 ∧ d.column = 1 := by
  constructor
  · decide +kernel
  · decide +kernel

end ForeignBindings
