import ForeignBindings.Proofs.Descriptor.Step

/-! Types that are unknown as a whole.  The message of a doubt tells the doubt, and the doubt for
which a whole type is unknown is about the trimmed text or about a part of it.  So texts of
different lengths that are unknown for what they say themselves have different descriptors. -/

namespace ForeignBindings

open Text

/-! ### Messages -/

namespace Doubt

/-- What a doubt is about. -/
def subject : Doubt → Text
  | .emptyType => []
  | .tooDeep text | .typeVariable text | .unresolved text | .unsupported text
  | .missingArgument text | .badField text => text

def kind : Doubt → Nat
  | .tooDeep _ => 0
  | .emptyType => 1
  | .typeVariable _ => 2
  | .unresolved _ => 3
  | .unsupported _ => 4
  | .missingArgument _ => 5
  | .badField _ => 6

/-- The first characters of the messages of each kind. -/
def openings : List Text :=
  ["type nested t".toList, "empty type ex".toList, "type variable".toList, "unresolved ty".toList,
    "unsupported t".toList, "missing type ".toList, "unsupported r".toList]

theorem openings_kind (doubt : Doubt) : openings[doubt.kind]? = some (doubt.message.take 13) := by
  cases doubt <;> rfl

theorem kind_eq_of_message_eq {a b : Doubt} (h : a.message = b.message) : a.kind = b.kind := by
  have hlt : a.kind < openings.length := (List.getElem?_eq_some_iff.mp (openings_kind a)).1
  apply (List.getElem?_inj hlt (by decide)).mp
  rw [openings_kind, openings_kind, h]

/-- A message tells what the doubt is. -/
theorem message_injective {a b : Doubt} (h : a.message = b.message) : a = b := by
  have hkind := kind_eq_of_message_eq h
  cases a with
  | tooDeep text =>
    cases b with
    | tooDeep => rw [List.append_cancel_left h]
    | _ => cases hkind
  | emptyType =>
    cases b with
    | emptyType => rfl
    | _ => cases hkind
  | typeVariable text =>
    cases b with
    | typeVariable => rw [List.append_cancel_left (List.append_cancel_right h)]
    | _ => cases hkind
  | unresolved text =>
    cases b with
    | unresolved => rw [List.append_cancel_left (List.append_cancel_right h)]
    | _ => cases hkind
  | unsupported text =>
    cases b with
    | unsupported => rw [List.append_cancel_left (List.append_cancel_right h)]
    | _ => cases hkind
  | missingArgument callee =>
    cases b with
    | missingArgument => rw [List.append_cancel_left (List.append_cancel_right h)]
    | _ => cases hkind
  | badField text =>
    cases b with
    | badField => rw [List.append_cancel_left h]
    | _ => cases hkind
end Doubt

/-! ### The doubt of a whole type -/

namespace TypeText

variable {describe : Text → Description} {text reason : Text}

theorem length_stripGrouping_le (text : Text) : (stripGrouping text).length ≤ text.length := by
  induction text using stripGrouping.induct with
  | case1 text h => exact Nat.le_of_eq (congrArg _ (stripGrouping_of_none h))
  | case2 text inside h hparts => exact Nat.le_of_eq (congrArg _ (stripGrouping_of_parts h hparts))
  | case3 text inside h hparts ih =>
    rw [stripGrouping_of_parenthesized h hparts]
    exact Nat.le_trans ih (Nat.le_of_lt (length_lt_of_parenthesized? h))

theorem exists_doubt_of_name (h : (name text).descriptor = .unknown reason) :
    ∃ doubt : Doubt, reason = doubt.message ∧ doubt.subject = text := by
  rw [name] at h
  split at h
  · exact ⟨.typeVariable text, (Descriptor.unknown.inj h).symm, rfl⟩
  · split at h
    · cases h
    · split at h
      · exact ⟨.unresolved text, (Descriptor.unknown.inj h).symm, rfl⟩
      · exact ⟨.unsupported text, (Descriptor.unknown.inj h).symm, rfl⟩

/-- No primitive name has a character that is in no word. -/
theorem lookup_primitives_eq_none {c : Char} (hmem : c ∈ text) (hc : isWordChar c = false) :
    primitives.lookup text = none := by
  have hwords : (primitives.all fun entry => entry.1.all isWordChar) = true := by decide
  rw [List.lookup_eq_none_iff]
  intro entry hentry
  rw [bne_iff_ne]
  rintro rfl
  rw [List.all_eq_true.mp (List.all_eq_true.mp hwords entry hentry) c hmem] at hc
  cases hc

theorem name_eq_unknown (h : primitives.lookup text = none) :
    ∃ doubt : Doubt, name text = .unknown doubt ∧ doubt.subject = text := by
  simp only [name, h]
  split
  · exact ⟨.typeVariable text, rfl, rfl⟩
  · split
    · exact ⟨.unresolved text, rfl, rfl⟩
    · exact ⟨.unsupported text, rfl, rfl⟩

theorem exists_doubt_of_application {callee : Text} {args : List Text}
    (h : (application describe callee args).descriptor = .unknown reason) :
    ∃ doubt : Doubt, reason = doubt.message ∧ doubt.subject = callee := by
  rw [application] at h
  split at h
  · exact ⟨.unresolved callee, (Descriptor.unknown.inj h).symm, rfl⟩
  · split at h <;> cases h

theorem length_callee_le {callee : Text} {args : List Text}
    (h : application? text = some (callee, args)) : callee.length ≤ text.length := by
  rw [application?] at h
  split at h
  · cases h
  · rename_i angle hangle
    dsimp only at h
    split at h
    · rw [← (Prod.mk.inj (Option.some.inj h)).1]
      exact Nat.le_trans (length_trim_le _) (List.take_sublist _ _).length_le
    · cases h

theorem exists_doubt_of_primary (h : (primary describe text).descriptor = .unknown reason) :
    ∃ doubt : Doubt, reason = doubt.message ∧ doubt.subject.length ≤ text.length := by
  rw [primary] at h
  split at h
  · exact ⟨.emptyType, (Descriptor.unknown.inj h).symm, Nat.zero_le _⟩
  · split at h
    · cases h
    · split at h
      · cases h
      · split at h
        · rename_i callee args happlication
          obtain ⟨doubt, hreason, rfl⟩ := exists_doubt_of_application h
          exact ⟨doubt, hreason, length_callee_le happlication⟩
        · obtain ⟨doubt, hreason, rfl⟩ := exists_doubt_of_name h
          exact ⟨doubt, hreason, Nat.le_refl _⟩

theorem exists_doubt_of_step (h : (step describe text).descriptor = .unknown reason) :
    ∃ doubt : Doubt, reason = doubt.message ∧ doubt.subject.length ≤ text.trim.length := by
  unfold step at h
  simp only at h
  split at h
  · cases h
  · split at h
    · cases h
    · obtain ⟨doubt, hreason, hle⟩ := exists_doubt_of_primary h
      exact ⟨doubt, hreason, Nat.le_trans hle (length_stripGrouping_le _)⟩

/-- The doubt for which a type is unknown as a whole is about no more than its trimmed text. -/
theorem exists_doubt_of_describeWithin {n : Nat}
    (h : (describeWithin n text).descriptor = .unknown reason) :
    ∃ doubt : Doubt, reason = doubt.message ∧ doubt.subject.length ≤ text.trim.length := by
  cases n with
  | zero => exact ⟨.tooDeep text.trim, (Descriptor.unknown.inj h).symm, Nat.le_refl _⟩
  | succ n => exact exists_doubt_of_step h

/-- A doubt about more than a text is not the doubt of this text. -/
theorem describeWithin_ne_unknown {doubt : Doubt} (h : text.trim.length < doubt.subject.length)
    (n : Nat) : (describeWithin n text).descriptor ≠ .unknown doubt.message := by
  intro heq
  obtain ⟨other, hmessage, hle⟩ := exists_doubt_of_describeWithin heq
  rw [← Doubt.message_injective hmessage] at hle
  exact absurd h (Nat.not_lt.mpr hle)

end TypeText

end ForeignBindings
