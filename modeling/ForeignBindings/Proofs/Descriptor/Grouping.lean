import ForeignBindings.Proofs.Descriptor.Unknown
import ForeignBindings.Proofs.Nesting.Ending

/-! Parentheses that only group.  Around a balanced text with at most one part they change nothing
in its description, with two exceptions: the parentheses of the unit type are taken off once they
are grouped themselves, and a string that is open hides the parenthesis that should close a pair, so
that a second pair encloses nothing balanced. -/

namespace ForeignBindings.TypeText

open Text Depth

/-- The text in so many pairs of parentheses. -/
def grouped : Nat → Text → Text
  | 0, text => text
  | n + 1, text => enclosed '(' ')' (grouped n text)

/-- A text that parentheses only group: it is not blank, it is balanced, and no comma makes several
parts of it. -/
structure Groupable (text : Text) : Prop where
  solid : text.trim ≠ []
  balanced : text.isBalanced = true
  single : (text.splitTop comma).length ≤ 1

theorem length_le_grouped (n : Nat) (text : Text) :
    text.length + n ≤ (grouped n text).length := by
  induction n with
  | zero => exact Nat.le_refl _
  | succ n ih =>
    rw [grouped, enclosed, List.length_cons, List.length_append]
    omega

/-! ### One pair -/

variable {describe : Text → Description} {text : Text}

namespace Groupable

theorem ne_nil (h : Groupable text) : text ≠ [] := by
  rintro rfl
  exact h.solid rfl

theorem stripGrouping_enclosed (h : Groupable text) :
    stripGrouping (enclosed '(' ')' text) = stripGrouping text.trim := by
  apply stripGrouping_of_parenthesized (parenthesized?_enclosed h.balanced)
  rw [comma, splitTop_trim]
  exact Nat.not_lt.mpr h.single

theorem step_enclosed (h : Groupable text) (hunit : text.trim ≠ ['(', ')']) :
    step describe (enclosed '(' ')' text) = step describe text := by
  simp only [step, trim_enclosed, if_neg (enclosed_ne_unit h.ne_nil), if_neg hunit,
    h.stripGrouping_enclosed]

/-- The parentheses of a grouped unit type are taken for grouping as well. -/
theorem step_enclosed_unit (h : Groupable text) (hunit : text.trim = ['(', ')']) :
    step describe (enclosed '(' ')' text) = .unknown .emptyType := by
  have hnone : parenthesized? [] = none := rfl
  have hsome : parenthesized? ['(', ')'] = some [] := parenthesized?_enclosed isBalanced_nil
  have hstrip : stripGrouping ['(', ')'] = [] := by
    rw [stripGrouping_of_parenthesized hsome (by decide +kernel), stripGrouping_of_none hnone]
  have harrow : cutAtTop? [] Piece.arrowText = none :=
    cutAtTop?_eq_none_iff.mpr (undivided_nil _).lacks
  simp only [step, trim_enclosed, if_neg (enclosed_ne_unit h.ne_nil), h.stripGrouping_enclosed,
    hunit, hstrip, harrow, primary, if_true]

theorem step_enclosed_iff (h : Groupable text) :
    step describe (enclosed '(' ')' text) = step describe text ↔ text.trim ≠ ['(', ')'] := by
  constructor
  · intro heq hunit
    rw [h.step_enclosed_unit hunit] at heq
    simp [step, hunit, Description.unknown, Description.plain] at heq
  · exact h.step_enclosed

theorem enclosed (h : Groupable text) (hb : isBalanced (Text.enclosed '(' ')' text) = true) :
    Groupable (Text.enclosed '(' ')' text) where
  solid := by
    rw [trim_enclosed]
    exact List.cons_ne_nil _ _
  balanced := hb
  single := length_splitTop_le_of_lacks (lacks_parenthesized h.balanced (by decide))

end Groupable

/-! ### Several pairs around a text without an open string -/

section Complete

variable (hcomplete : Complete text)
include hcomplete

theorem complete_grouped (n : Nat) : Complete (grouped n text) := by
  induction n with
  | zero => exact hcomplete
  | succ n ih => exact ih.enclosed

theorem groupable_grouped (h : Groupable text) (n : Nat) : Groupable (grouped n text) := by
  induction n with
  | zero => exact h
  | succ n ih =>
    exact ih.enclosed ((complete_grouped hcomplete n).isBalanced_enclosed ih.balanced)

theorem step_grouped_succ (h : Groupable text) (n : Nat) :
    step describe (grouped (n + 1) text) = step describe (grouped 1 text) := by
  induction n with
  | zero => rfl
  | succ n ih =>
    rw [← ih]
    apply (groupable_grouped hcomplete h (n + 1)).step_enclosed
    rw [grouped, trim_enclosed]
    exact enclosed_ne_unit (groupable_grouped hcomplete h n).ne_nil

end Complete

/-! ### Several pairs around an open string -/

section Open

variable (hopen : EndsOpen text)
include hopen

theorem endsOpen_grouped (n : Nat) : EndsOpen (grouped n text) := by
  induction n with
  | zero => exact hopen
  | succ n ih => exact ih.enclosed

/-- Every pair leaves one parenthesis open. -/
theorem round_grouped (hb : text.isBalanced = true) (n : Nat) :
    (zero.through (pieces (grouped n text))).round = n := by
  induction n with
  | zero =>
    rw [grouped, through_of_balancedFrom hb]
    rfl
  | succ n ih =>
    rw [grouped, (endsOpen_grouped hopen n).through_enclosed, Pair.round.feed_opening,
      ← zero_add Pair.round.depth, through_add]
    change (zero.through (pieces (grouped n text))).round + 1 = _
    rw [ih]
    rfl

theorem isBalanced_grouped_succ (hb : text.isBalanced = true) (n : Nat) :
    isBalanced (grouped (n + 1) text) = false := by
  rw [Bool.eq_false_iff]
  intro hbalanced
  have hround := round_grouped hopen hb (n + 1)
  rw [through_of_balancedFrom hbalanced] at hround
  change (0 : Int) = _ at hround
  omega

theorem lacks_grouped (hb : text.isBalanced = true) {separator : Text} (n : Nat) {d : Depth}
    (hd : d.underflowed = false) (htop : d.atTop = false) :
    Lacks separator d (pieces (grouped n text)) := by
  induction n generalizing d with
  | zero =>
    have hinside : Lacks separator (zero.add d) text.pieces :=
      lacks_inside hb zero_underflowed hd htop
    rwa [zero_add] at hinside
  | succ n ih =>
    rw [grouped, (endsOpen_grouped hopen n).lacks_enclosed_iff]
    refine ⟨fun hsep => ?_, ?_⟩
    · rw [htop] at hsep
      cases hsep.1
    · have hfeed : Piece.feed d (.plain '(') = Pair.round.depth.add d := by
        rw [← Pair.round.feed_opening, ← feed_add, zero_add]
      rw [hfeed]
      exact ih (underflowed_add Pair.round.depth_underflowed hd)
        (atTop_add Pair.round.depth_underflowed hd htop)

/-- A text with an open string in more than one pair of parentheses is unknown for what it says with
all of them. -/
theorem step_grouped_unknown (hb : text.isBalanced = true) (n : Nat) :
    ∃ doubt : Doubt, step describe (grouped (n + 2) text) = .unknown doubt ∧
      doubt.subject = grouped (n + 2) text := by
  have hunbalanced := isBalanced_grouped_succ hopen hb n
  have hlacks {separator : Text} (hne : separator ≠ ['(']) :
      Lacks separator zero (pieces (grouped (n + 2) text)) := by
    rw [grouped, (endsOpen_grouped hopen (n + 1)).lacks_enclosed_iff, Pair.round.feed_opening]
    exact ⟨fun hsep => hne hsep.2.symm, lacks_grouped hopen hb (n + 1) Pair.round.depth_underflowed
      Pair.round.depth_atTop⟩
  have hparen : parenthesized? (grouped (n + 2) text) = none := by
    rw [grouped, parenthesized?, inner_enclosed, hunbalanced]
    simp
  have htuple : tupleParts? (grouped (n + 2) text) = none := by
    rw [grouped, tupleParts?, inner_enclosed, hunbalanced]
    simp
  have hrecord : recordBody? (grouped (n + 2) text) = none :=
    recordBody?_eq_none (begins_cons (by decide))
  have happlication : application? (grouped (n + 2) text) = none := by
    rw [application?, findTop?_eq_none_iff.mpr (hlacks (by decide))]
  have htrim : trim (grouped (n + 2) text) = grouped (n + 2) text := trim_enclosed _
  have hunit : grouped (n + 2) text ≠ ['(', ')'] := enclosed_ne_unit (List.cons_ne_nil _ _)
  have hne : grouped (n + 2) text ≠ [] := List.cons_ne_nil _ _
  rw [step_eq_primary htrim hunit (stripGrouping_of_none hparen) (hlacks (by decide))]
  simp only [primary, if_neg hne, htuple, hrecord, happlication]
  exact name_eq_unknown (lookup_primitives_eq_none (List.mem_cons_self : '(' ∈ _) (by decide))

end Open

/-- Pairs of parentheses around a text that is not blank, is balanced and has at most one part do
not change its description, unless it is the unit type, or there is more than one pair and the first
of them is hidden by an open string. -/
theorem describe_grouped_iff (hsolid : text.trim ≠ []) (hbalanced : text.isBalanced = true)
    (hsingle : (text.splitTop comma).length ≤ 1) (n : Nat) :
    TypeText.describe (grouped n text) = TypeText.describe text ↔
      n = 0 ∨ text.trim ≠ ['(', ')'] ∧ (n = 1 ∨ (grouped 1 text).isBalanced = true) := by
  have hgroupable : Groupable text := ⟨hsolid, hbalanced, hsingle⟩
  rcases n with _ | _ | n
  · simp [grouped]
  · rw [describe_eq_step, describe_eq_step]
    apply Iff.trans hgroupable.step_enclosed_iff
    simp
  · rcases complete_or_endsOpen text with hcomplete | hopen
    · have hfirst := (groupable_grouped hcomplete hgroupable 1).balanced
      rw [describe_eq_step, describe_eq_step, step_grouped_succ hcomplete hgroupable (n + 1)]
      apply Iff.trans hgroupable.step_enclosed_iff
      simp [hfirst]
    · -- The doubt is about a text that is longer than any doubt about the text alone.
      have hfirst := isBalanced_grouped_succ hopen hbalanced 0
      obtain ⟨doubt, hstep, hsubject⟩ := step_grouped_unknown hopen hbalanced n
      have hlong : text.trim.length < doubt.subject.length := by
        have hle := length_le_grouped (n + 2) text
        have htrim := length_trim_le text
        rw [hsubject]
        omega
      have hne : TypeText.describe (grouped (n + 2) text) ≠ TypeText.describe text := by
        rw [describe_eq_step, hstep]
        intro heq
        exact describeWithin_ne_unknown hlong maxHeight (congrArg Description.descriptor heq).symm
      simp [hfirst, hne]

/-- A function type with a bracket in a quoted key, in three pairs of parentheses. -/
theorem describe_grouped_function :
    let text : Text := " (int, string) => \x7b\"(\": unit\x7d ".toList
    text.trim ≠ [] ∧ text.isBalanced = true ∧ (text.splitTop comma).length ≤ 1 ∧
      TypeText.describe (grouped 3 text) = TypeText.describe text := by
  intro text
  have hsolid : text.trim ≠ [] := by decide +kernel
  have hbalanced : text.isBalanced = true := by decide +kernel
  have hsingle : (text.splitTop comma).length ≤ 1 := by decide +kernel
  have hunit : text.trim ≠ ['(', ')'] := by decide +kernel
  have hfirst : (grouped 1 text).isBalanced = true := by decide +kernel
  exact ⟨hsolid, hbalanced, hsingle,
    (describe_grouped_iff hsolid hbalanced hsingle 3).mpr (.inr ⟨hunit, .inr hfirst⟩)⟩

/-- In parentheses, the unit type is an empty text. -/
theorem describe_grouped_unit_ne :
    let text : Text := ['(', ')']
    text.trim ≠ [] ∧ text.isBalanced = true ∧ (text.splitTop comma).length ≤ 1 ∧
      TypeText.describe (grouped 1 text) ≠ TypeText.describe text := by
  intro text
  have hgroupable : Groupable text := ⟨by decide, by decide +kernel, by decide +kernel⟩
  refine ⟨hgroupable.solid, hgroupable.balanced, hgroupable.single, fun heq => ?_⟩
  exact hgroupable.step_enclosed_iff.mp heq rfl

end ForeignBindings.TypeText
