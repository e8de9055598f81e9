import ForeignBindings.Proofs.Descriptor.Grammar
import ForeignBindings.Proofs.Nesting.Quoted

/-! Records with quoted keys.  Fields are cut where they should be, whatever the keys hold, but a
field is cut into its key and its type at its first colon.  So exactly the keys without colons come
back. -/

namespace ForeignBindings.TypeText

open Text

variable {describe : Text → Description} {key : Text}

/-- A field with a quoted key, as it is written. -/
def quotedField (key type : Text) : Text := stringLiteral key ++ ':' :: ' ' :: type

theorem isPart_quotedField {type : Text} (hkey : Quotable key) (htype : IsPart type) :
    IsPart (quotedField key type) := by
  have hcolon : ∀ c ∈ [':', ' '], Inert c ∧ bracket? c = none ∧ [','] ≠ [c] := by
    rw [List.forall_mem_cons]
    exact ⟨⟨⟨rfl, by decide⟩, rfl, by decide⟩, flat_blank (by decide)⟩
  have hliteral := isPart_stringLiteral hkey
  exact ⟨hliteral.begins.append _, (htype.finishes.append [':', ' ']).append _,
    hliteral.undivided.append (htype.undivided.flat_append hcolon) (by simp)⟩

/-! ### The first colon of a field -/

/-- The key that a field is taken to have: what stands before its first colon. -/
def keyOf (part : Text) : Text := unquote (Text.trim (part.takeWhile (· != ':')))

/-- The type that a field is taken to have: what stands after its first colon. -/
def typeOf (part : Text) : Text := (part.dropWhile (· != ':')).drop 1

theorem field_quotedField (key type : Text) :
    field describe (quotedField key type) =
      ([(keyOf (quotedField key type), (describe (typeOf (quotedField key type))).descriptor)],
        (describe (typeOf (quotedField key type))).warnings) := by
  have hmutable : dropMutable (quotedField key type) = quotedField key type := by
    rw [dropMutable]
    apply if_neg
    rintro ⟨hmark, -⟩
    exact Bool.noConfusion hmark
  rw [field, hmutable]
  split
  · rename_i hdrop
    have hmem : ':' ∈ quotedField key type := List.mem_append_right _ List.mem_cons_self
    rw [← @List.takeWhile_append_dropWhile _ (· != ':') (quotedField key type), hdrop,
      List.append_nil] at hmem
    exact absurd (List.all_eq_true.mp List.all_takeWhile ':' hmem) (by decide)
  · rename_i c after hdrop
    rw [keyOf, typeOf, hdrop]
    rfl

/-- The first colon stands in the key, or right after the quotes around it. -/
theorem takeWhile_quotedField_of_mem {front back : Text} (hfront : ':' ∉ front) (type : Text) :
    (quotedField (front ++ ':' :: back) type).takeWhile (· != ':') = '\x22' :: front := by
  have hquoted : ∀ c ∈ '\x22' :: front, (c != ':') = true := by
    intro c hc
    rw [bne_iff_ne]
    rintro rfl
    exact hfront ((List.mem_cons.mp hc).resolve_left (by decide))
  have hsplit : quotedField (front ++ ':' :: back) type =
      '\x22' :: front ++ ':' :: (back ++ '\x22' :: ':' :: ' ' :: type) := by
    simp [quotedField, stringLiteral, enclosed]
  rw [hsplit, List.takeWhile_append_of_pos hquoted, List.takeWhile_cons_of_neg (by decide),
    List.append_nil]

section NoColon

variable (hcolon : ':' ∉ key) (type : Text)
include hcolon

theorem ne_colon_of_mem_stringLiteral : ∀ c ∈ stringLiteral key, (c != ':') = true := by
  intro c hc
  rw [bne_iff_ne]
  rintro rfl
  simp [stringLiteral, enclosed, hcolon] at hc

theorem takeWhile_quotedField :
    (quotedField key type).takeWhile (· != ':') = stringLiteral key := by
  rw [quotedField, List.takeWhile_append_of_pos (ne_colon_of_mem_stringLiteral hcolon),
    List.takeWhile_cons_of_neg (by decide), List.append_nil]

theorem typeOf_quotedField : typeOf (quotedField key type) = ' ' :: type := by
  rw [typeOf, quotedField, List.dropWhile_append_of_pos (ne_colon_of_mem_stringLiteral hcolon),
    List.dropWhile_cons_of_neg (by decide), List.drop_one, List.tail_cons]

end NoColon

/-- A quote that is not closed stays. -/
theorem unquote_of_not_mem {text : Text} (h : '\x22' ∉ text) :
    unquote ('\x22' :: text) = '\x22' :: text := by
  rw [unquote]
  apply if_neg
  rintro ⟨hlength, hquotes | hprimes⟩
  · cases text with
    | nil => exact absurd hlength (by decide)
    | cons c text =>
      simp only [enclosedBy, Bool.and_eq_true, beq_iff_eq, List.getLast?_cons_cons] at hquotes
      exact h (List.mem_of_getLast? hquotes.2)
  · rw [enclosedBy_eq_false (begins_cons (by decide))] at hprimes
    cases hprimes

/-- A key comes back exactly if it has no colon: otherwise its opening quote is left. -/
theorem keyOf_quotedField_eq_iff (hkey : Quotable key) (type : Text) :
    keyOf (quotedField key type) = key ↔ ':' ∉ key := by
  constructor
  · intro heq hmem
    -- What stands before the first colon begins with the opening quote, which is in no key.
    obtain ⟨front, back, rfl, hfront⟩ := List.eq_append_cons_of_mem hmem
    have hopen : '\x22' ∉ trimEnd front := by
      intro hquote
      have hfrontQuote : '\x22' ∈ front :=
        List.mem_reverse.mp (List.dropWhile_subset _ (List.mem_reverse.mp hquote))
      exact hkey.1 (List.mem_append_left _ hfrontQuote)
    have htrim : Text.trim ('\x22' :: front) = '\x22' :: trimEnd front :=
      @trim_append ['\x22'] (begins_cons rfl) (finishes_concat [] rfl) front
    rw [keyOf, takeWhile_quotedField_of_mem hfront, htrim, unquote_of_not_mem hopen] at heq
    exact hkey.1 (heq ▸ List.mem_cons_self)
  · intro hcolon
    rw [keyOf, takeWhile_quotedField hcolon, (isPart_stringLiteral hkey).trim_eq,
      unquote_stringLiteral]

/-! ### Records -/

/-- A record with quoted keys, as it is written. -/
def quotedRecord (fields : List (Text × TypeTree)) : Text :=
  enclosed '\x7b' '\x7d' (join commaBlank (fields.map fun f => quotedField f.1 f.2.text))

theorem step_quotedRecord {fields : List (Text × TypeTree)} (hkeys : ∀ f ∈ fields, Quotable f.1) :
    step describe (quotedRecord fields) =
      describedRecord (fields.map fun f => (keyOf (quotedField f.1 f.2.text),
        describe (typeOf (quotedField f.1 f.2.text)))) := by
  have hparts : ∀ part ∈ fields.map fun f => quotedField f.1 f.2.text, IsPart part := by
    intro part hpart
    obtain ⟨f, hf, rfl⟩ := List.mem_map.mp hpart
    exact isPart_quotedField (hkeys f hf) f.2.isType_text.toIsPart
  have htrim : Text.trim (quotedRecord fields) = quotedRecord fields :=
    trim_eq_self (begins_cons (by decide)) (finishes_concat ('\x7b' :: _) (by decide))
  rw [step_braces hparts htrim]
  simp only [describedRecord, List.map_map, Function.comp_def, field_quotedField, List.flatMap_map,
    ← List.map_eq_flatMap]

/-- One field comes back exactly if its key has no colon and its type is not too high. -/
theorem description_quotedField_iff {tree : TypeTree} {n : Nat} (hkey : Quotable key)
    (htype : tree.description.warnings = []) :
    (keyOf (quotedField key tree.text) = key ∧
        (describeWithin n (typeOf (quotedField key tree.text))).descriptor =
          tree.description.descriptor ∧
        (describeWithin n (typeOf (quotedField key tree.text))).warnings = []) ↔
      ':' ∉ key ∧ tree.height ≤ n := by
  rw [keyOf_quotedField_eq_iff hkey]
  apply and_congr_right
  intro hcolon
  have htrim : Text.trim (' ' :: tree.text) = tree.text :=
    (trim_blank_cons rfl _).trans tree.isType_text.trim_eq
  rw [typeOf_quotedField hcolon]
  constructor
  · intro h
    exact TypeTree.height_le_of_warnings_eq_nil htrim h.2
  · intro hheight
    rw [TypeTree.describeWithin_of_trim hheight htrim]
    exact ⟨rfl, htype⟩

/-- A record with quoted keys is described as the record of exactly these keys, with the descriptors
of the types and without warnings, if and only if no key has a colon and no type is too high. -/
theorem describe_quotedRecord_iff {fields : List (Text × TypeTree)}
    (hkeys : ∀ f ∈ fields, Quotable f.1) (htypes : ∀ f ∈ fields, f.2.description.warnings = []) :
    TypeText.describe (quotedRecord fields) =
        .plain (.record (fields.map fun f => (f.1, f.2.description.descriptor))) ↔
      ∀ f ∈ fields, ':' ∉ f.1 ∧ f.2.height < maxHeight := by
  have hfield {f : Text × TypeTree} (hf : f ∈ fields) :=
    @description_quotedField_iff _ _ (maxHeight - 1) (hkeys f hf) (htypes f hf)
  rw [describe_eq_step, step_quotedRecord hkeys, describedRecord, Description.plain,
    Description.mk.injEq, Descriptor.record.injEq, List.map_map, List.map_inj_left,
    List.flatMap_map, List.flatMap_eq_nil_iff]
  constructor
  · rintro ⟨hdescriptors, hwarnings⟩ f hf
    obtain ⟨hkey, htype⟩ := Prod.mk.inj (hdescriptors f hf)
    have hkept := (hfield hf).mp ⟨hkey, htype, hwarnings f hf⟩
    exact ⟨hkept.1, Nat.lt_of_le_sub_one (by decide) hkept.2⟩
  · intro h
    have hkept {f : Text × TypeTree} (hf : f ∈ fields) :=
      (hfield hf).mpr ⟨(h f hf).1, Nat.le_sub_one_of_lt (h f hf).2⟩
    exact ⟨fun f hf => Prod.ext (hkept hf).1 (hkept hf).2.1, fun f hf => (hkept hf).2.2⟩

/-- A key with a comma, a bracket, an arrow and blanks, and the empty key. -/
theorem describe_quotedRecord_brackets :
    let int : TypeTree := .primitive ⟨"int".toList, by decide⟩ "number".toList (by decide)
    let fields : List (Text × TypeTree) :=
      [(" a, (b => ".toList, int), ([], .tuple int int [])]
    (∀ f ∈ fields, Quotable f.1) ∧ (∀ f ∈ fields, f.2.description.warnings = []) ∧
      TypeText.describe (quotedRecord fields) =
        .plain (.record (fields.map fun f => (f.1, f.2.description.descriptor))) := by
  intro int fields
  have hkeys : ∀ f ∈ fields, Quotable f.1 := by
    rw [List.forall_mem_cons, List.forall_mem_singleton]
    decide
  have hint : int.description = .plain (.primitive "number".toList) := by
    rw [TypeTree.description]
  have htypes : ∀ f ∈ fields, f.2.description.warnings = [] := by
    rw [List.forall_mem_cons, List.forall_mem_singleton]
    simp [TypeTree.description, hint, Description.plain, Description.allWarnings]
  have hkept : ∀ f ∈ fields, ':' ∉ f.1 ∧ f.2.height < maxHeight := by
    have hheight : int.height ≤ 1 ∧ (TypeTree.tuple int int []).height ≤ 2 := by
      simp [int, TypeTree.height_le_succ_iff, TypeTree.children]
    rw [List.forall_mem_cons, List.forall_mem_singleton]
    exact ⟨⟨by decide, Nat.lt_of_le_of_lt hheight.1 (by decide)⟩,
      ⟨List.not_mem_nil, Nat.lt_of_le_of_lt hheight.2 (by decide)⟩⟩
  exact ⟨hkeys, htypes, (describe_quotedRecord_iff hkeys htypes).mpr hkept⟩

/-- The part of a key after its colon is taken for the beginning of the type. -/
theorem describe_quotedRecord_colon_ne :
    TypeText.describe "\x7b\"xlink:href\": string\x7d".toList ≠
      .plain (.record [("xlink:href".toList, .primitive "string".toList)]) := by
  intro heq
  have hwarnings : (TypeText.describe "\x7b\"xlink:href\": string\x7d".toList).warnings =
      ["unsupported type href\": string treated as unknown".toList] := by decide +kernel
  rw [heq] at hwarnings
  cases hwarnings

end ForeignBindings.TypeText
