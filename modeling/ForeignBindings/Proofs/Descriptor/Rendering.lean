import ForeignBindings.Descriptor.Description
import ForeignBindings.Descriptor.Typescript
import ForeignBindings.Proofs.Text.OneLine

/-! Rendered types on one line.  If a descriptor names only what the tables of names hold, all that
can put a line feed into its rendered form is a key that is taken for an identifier with a line feed
after it. -/

namespace ForeignBindings

open Text

/-! ### Descriptors with known names -/

/-- The names of primitives and wrappers are those of the tables. -/
inductive Descriptor.Resolved : Descriptor → Prop
  | primitive {name : Text} (h : name ∈ TypeText.primitives.map Prod.snd) :
      Resolved (.primitive name)
  | function {params : List Descriptor} {result : Descriptor} (hparams : ∀ p ∈ params, Resolved p)
      (hresult : Resolved result) : Resolved (.function params result)
  | tuple {elements : List Descriptor} (h : ∀ e ∈ elements, Resolved e) : Resolved (.tuple elements)
  | record {fields : List (Text × Descriptor)} (h : ∀ f ∈ fields, Resolved f.2) :
      Resolved (.record fields)
  | wrapper {name : Text} {args : List Descriptor} (hname : name ∈ TypeText.wrappers.map Prod.snd)
      (hargs : ∀ a ∈ args, Resolved a) : Resolved (.wrapper name args)
  | unknown (reason : Text) : Resolved (.unknown reason)

/-! ### Keys -/

namespace Typescript

/-- The key is taken for an identifier, but has a line feed at its end. -/
def leaks (key : Text) : Bool := isIdentifier key && key.getLast? == some '\n'

theorem oneLine_of_isIdentifier {key : Text} (h : isIdentifier key = true) :
    OneLine key ↔ key.getLast? ≠ some '\n' := by
  constructor
  · exact fun hline hlast => hline (List.mem_of_getLast? hlast)
  · intro hlast hmem
    rw [isIdentifier, if_neg hlast, Bool.and_eq_true, List.all_eq_true] at h
    exact absurd (h.2 '\n' hmem) (by decide)

theorem oneLine_propertyKey (key : Text) : OneLine (propertyKey key) ↔ leaks key = false := by
  by_cases h : isIdentifier key = true
  · rw [propertyKey, if_pos h, oneLine_of_isIdentifier h, leaks, h, Bool.true_and,
      beq_eq_false_iff_ne]
  · rw [propertyKey, if_neg h, leaks, Bool.eq_false_iff.mpr h]
    simp [oneLine_quote]

/-- A query stands on one line exactly if none of the identifiers that it chains leaks. -/
theorem oneLine_typeQuery {root : Text} (hroot : OneLine root) (segments : List Text) :
    OneLine (typeQuery root segments) ↔
      ∀ segment ∈ segments.takeWhile isIdentifier, leaks segment = false := by
  have hdotted :
      OneLine ("typeof ".toList ++ join ['.'] (root :: segments.takeWhile isIdentifier)) ↔
      ∀ segment ∈ segments.takeWhile isIdentifier, leaks segment = false := by
    rw [oneLine_append, oneLine_join (by decide), List.forall_mem_cons]
    have hsegment : ∀ segment ∈ segments.takeWhile isIdentifier,
        (OneLine segment ↔ leaks segment = false) := by
      intro segment hmem
      have hidentifier := List.all_eq_true.mp List.all_takeWhile segment hmem
      rw [oneLine_of_isIdentifier hidentifier, leaks, hidentifier, Bool.true_and,
        beq_eq_false_iff_ne]
    constructor
    · intro h segment hmem
      exact (hsegment segment hmem).mp (h.2.2 segment hmem)
    · intro h
      refine ⟨by decide, hroot, ?_⟩
      intro segment hmem
      exact (hsegment segment hmem).mpr (h segment hmem)
  rw [typeQuery]
  split
  · exact hdotted
  · rw [← hdotted]
    simp [oneLine_flatMap, oneLine_quote]

/-! ### Rendered descriptors -/

/-- A record in the rendered part of a descriptor has the key; of a wrapper only the first argument
is rendered. -/
inductive HasKey (key : Text) : Descriptor → Prop
  | param {params : List Descriptor} {result p : Descriptor} (hp : p ∈ params) (h : HasKey key p) :
      HasKey key (.function params result)
  | result {params : List Descriptor} {result : Descriptor} (h : HasKey key result) :
      HasKey key (.function params result)
  | element {elements : List Descriptor} {e : Descriptor} (he : e ∈ elements) (h : HasKey key e) :
      HasKey key (.tuple elements)
  | own {fields : List (Text × Descriptor)} {f : Text × Descriptor} (hf : f ∈ fields)
      (h : f.1 = key) : HasKey key (.record fields)
  | field {fields : List (Text × Descriptor)} {f : Text × Descriptor} (hf : f ∈ fields)
      (h : HasKey key f.2) : HasKey key (.record fields)
  | argument {name : Text} {first : Descriptor} {rest : List Descriptor} (h : HasKey key first) :
      HasKey key (.wrapper name (first :: rest))

theorem renderAll_eq (ds : List Descriptor) : renderAll ds = ds.map render := by
  induction ds with
  | nil => rfl
  | cons d ds ih => rw [renderAll, ih, List.map_cons]

theorem renderFields_eq (fields : List (Text × Descriptor)) :
    renderFields fields = fields.map fun f => propertyKey f.1 ++ ": ".toList ++ render f.2 := by
  induction fields with
  | nil => rfl
  | cons f fields ih => rw [renderFields, ih, List.map_cons]

theorem oneLine_numberParams (index : Nat) (types : List Text) :
    (∀ part ∈ numberParams index types, OneLine part) ↔ ∀ type ∈ types, OneLine type := by
  induction types generalizing index with
  | nil => simp [numberParams]
  | cons type types ih =>
    rw [numberParams, List.forall_mem_cons, List.forall_mem_cons, ih]
    simp [oneLine_ofNat]

theorem oneLine_wrap {name : Text} (hname : name ∈ TypeText.wrappers.map Prod.snd) (arg : Text)
    (argIsFunction : Bool) : OneLine (wrap name arg argIsFunction) ↔ OneLine arg := by
  have hknown : name ∈ [Descriptor.arrayName, Descriptor.optionName, Descriptor.promiseName,
      Descriptor.nullableName, Descriptor.nullName, Descriptor.dictName] := by
    revert hname
    simp [TypeText.wrappers]
  have hoperand : OneLine (if argIsFunction then '(' :: (arg ++ [')']) else arg) ↔
      OneLine arg := by
    cases argIsFunction <;> simp
  have hclosed {before after : Text} (hbefore : OneLine before) (hafter : OneLine after)
      (text : Text) : OneLine (before ++ text ++ after) ↔ OneLine text := by
    simp [hbefore, hafter]
  simp only [List.mem_cons, List.not_mem_nil, or_false] at hknown
  rcases hknown with rfl | rfl | rfl | rfl | rfl | rfl
  · exact hclosed (by decide) (by decide) arg
  · exact (@hclosed ['('] _ (by decide) (by decide) _).trans hoperand
  · exact hclosed (by decide) (by decide) arg
  · exact (@hclosed ['('] _ (by decide) (by decide) _).trans hoperand
  · exact (@hclosed ['('] _ (by decide) (by decide) _).trans hoperand
  · exact hclosed (by decide) (by decide) arg

theorem oneLine_render_function (params : List Descriptor) (result : Descriptor) :
    OneLine (render (.function params result)) ↔
      (∀ p ∈ params, OneLine (render p)) ∧ OneLine (render result) := by
  simp [render, renderAll_eq, oneLine_join, oneLine_numberParams]

theorem oneLine_render_tuple (elements : List Descriptor) :
    OneLine (render (.tuple elements)) ↔ ∀ e ∈ elements, OneLine (render e) := by
  simp [render, renderAll_eq, oneLine_join]

theorem oneLine_render_record (fields : List (Text × Descriptor)) :
    OneLine (render (.record fields)) ↔
      ∀ f ∈ fields, leaks f.1 = false ∧ OneLine (render f.2) := by
  have hparts : (∀ part ∈ renderFields fields, OneLine part) ↔
      ∀ f ∈ fields, leaks f.1 = false ∧ OneLine (render f.2) := by
    rw [renderFields_eq, List.forall_mem_map]
    simp [oneLine_propertyKey]
  rw [← hparts, render]
  split
  · rename_i hnil
    simp [hnil]
  · simp [oneLine_join]

/-- The rendered form of a descriptor stands on one line exactly if none of its keys leaks. -/
theorem oneLine_render {d : Descriptor} (h : d.Resolved) :
    OneLine (render d) ↔ ∀ key, HasKey key d → leaks key = false := by
  induction h with
  | @primitive name h =>
    have hline : OneLine name := by
      revert name
      decide
    simp only [render, hline, true_iff]
    rintro key ⟨⟩
  | @function params result hparams hresult ihparams ihresult =>
    rw [oneLine_render_function, ihresult]
    constructor
    · rintro ⟨hp, hr⟩ key (⟨hmem, hkey⟩ | hkey)
      · exact (ihparams _ hmem).mp (hp _ hmem) key hkey
      · exact hr key hkey
    · intro hkeys
      constructor
      · intro p hp
        exact (ihparams p hp).mpr fun key hkey => hkeys key (.param hp hkey)
      · intro key hkey
        exact hkeys key (.result hkey)
  | @tuple elements h ih =>
    rw [oneLine_render_tuple]
    constructor
    · intro he key hkey
      cases hkey with
      | element hmem hkey => exact (ih _ hmem).mp (he _ hmem) key hkey
    · intro hkeys e he
      exact (ih e he).mpr fun key hkey => hkeys key (.element he hkey)
  | @record fields h ih =>
    rw [oneLine_render_record]
    constructor
    · intro hf key hkey
      cases hkey with
      | own hmem hname => exact hname ▸ (hf _ hmem).1
      | field hmem hkey => exact (ih _ hmem).mp (hf _ hmem).2 key hkey
    · intro hkeys f hf
      constructor
      · exact hkeys f.1 (.own hf rfl)
      · exact (ih f hf).mpr fun key hkey => hkeys key (.field hf hkey)
  | @wrapper name args hname hargs ih =>
    rw [render.eq_def]
    cases args with
    | nil =>
      constructor
      · rintro - key ⟨⟩
      · intro _
        exact (oneLine_wrap hname _ _).mpr (by decide)
    | cons first rest =>
      apply (oneLine_wrap hname _ _).trans
      apply (ih first List.mem_cons_self).trans
      constructor
      · intro hfirst key hkey
        cases hkey with
        | argument hkey => exact hfirst key hkey
      · intro hkeys key hkey
        exact hkeys key (.argument hkey)
  | unknown reason =>
    simp only [render]
    constructor
    · rintro - key ⟨⟩
    · intro _
      decide

end Typescript

end ForeignBindings
