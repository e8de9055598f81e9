import Mathlib.Data.List.Flatten
import ForeignBindings.Proofs.Descriptor.Unambiguous

/-! What a description leaves unknown.  Whatever a text says, its descriptor is well formed, and
every unknown part of it has its warning: the reasons, from left to right, stand among the warnings
in this order.  So a description without warnings is rendered as a type that is written without the
type of unknown values. -/

namespace ForeignBindings

open Text

/-! ### Reasons -/

namespace Descriptor

mutual

/-- The reasons for the unknown parts of a descriptor, from left to right. -/
def reasons : Descriptor → List Text
  | .primitive _ => []
  | .function params result => allReasons params ++ result.reasons
  | .tuple elements => allReasons elements
  | .record fields => fieldReasons fields
  | .wrapper _ args => allReasons args
  | .unknown reason => [reason]

def allReasons : List Descriptor → List Text
  | [] => []
  | d :: rest => d.reasons ++ allReasons rest

def fieldReasons : List (Text × Descriptor) → List Text
  | [] => []
  | (_, d) :: rest => d.reasons ++ fieldReasons rest

end

theorem allReasons_eq (ds : List Descriptor) : allReasons ds = ds.flatMap reasons := by
  induction ds with
  | nil => rfl
  | cons d ds ih => rw [allReasons, ih, List.flatMap_cons]

theorem fieldReasons_eq (fields : List (Text × Descriptor)) :
    fieldReasons fields = fields.flatMap fun f => f.2.reasons := by
  induction fields with
  | nil => rfl
  | cons f fields ih => rw [fieldReasons, ih, List.flatMap_cons]

theorem WellFormed.resolved {d : Descriptor} (h : d.WellFormed) : d.Resolved := by
  induction h with
  | primitive hname =>
    have hnames : ∀ name ∈ primitiveNames, name ∈ TypeText.primitives.map Prod.snd := by decide
    exact .primitive (hnames _ hname)
  | function hparams hresult ihparams ihresult => exact .function ihparams ihresult
  | tuple hlength h ih => exact .tuple ih
  | record h ih => exact .record ih
  | wrapper hname harg ih =>
    have hnames : ∀ name ∈ wrapperNames, name ∈ TypeText.wrappers.map Prod.snd := by decide
    exact .wrapper (hnames _ hname) (List.forall_mem_singleton.mpr ih)
  | unknown reason => exact .unknown reason

theorem reasons_wrapper (name : Text) (arg : Descriptor) :
    (wrapper name [arg]).reasons = arg.reasons := by
  rw [reasons, allReasons_eq, List.flatMap_singleton]

end Descriptor

/-- The descriptor is well formed, and the warnings account for what is unknown in it. -/
structure Description.Accounted (t : Description) : Prop where
  wellFormed : t.descriptor.WellFormed
  reasons : t.descriptor.reasons.Sublist t.warnings

namespace Description

theorem accounted_unknown (doubt : Doubt) : (unknown doubt).Accounted :=
  ⟨.unknown _, List.Sublist.refl _⟩

theorem Accounted.wrapper {t : Description} (h : t.Accounted) {name : Text}
    (hname : name ∈ Descriptor.wrapperNames) : (t.map fun d => .wrapper name [d]).Accounted where
  wellFormed := .wrapper hname h.wellFormed
  reasons := by
    rw [map, Descriptor.reasons_wrapper]
    exact h.reasons

section Parts

variable {ts : List Description} (h : ∀ t ∈ ts, t.Accounted)
include h

theorem wellFormed_of_mem_descriptors : ∀ d ∈ descriptors ts, d.WellFormed := by
  intro d hd
  obtain ⟨t, ht, rfl⟩ := List.mem_map.mp hd
  exact (h t ht).wellFormed

theorem reasons_descriptors :
    (Descriptor.allReasons (descriptors ts)).Sublist (allWarnings ts) := by
  rw [Descriptor.allReasons_eq, descriptors, List.flatMap_map, allWarnings]
  exact List.Sublist.flatMap_right ts fun t ht => (h t ht).reasons

end Parts

end Description

/-! ### Every step accounts for what it leaves unknown -/

namespace TypeText

theorem mem_map_snd_of_lookup {table : List (Text × Text)} {key value : Text}
    (h : table.lookup key = some value) : value ∈ table.map Prod.snd := by
  induction table with
  | nil => cases h
  | cons entry table ih =>
    obtain ⟨k, v⟩ := entry
    rw [List.lookup_cons] at h
    split at h
    · cases h
      exact List.mem_cons_self
    · exact List.mem_cons_of_mem _ (ih h)

variable {describe : Text → Description} (h : ∀ text, (describe text).Accounted)

theorem length_of_tupleParts? {text : Text} {parts : List Text}
    (hparts : tupleParts? text = some parts) : 2 ≤ parts.length := by
  rw [tupleParts?] at hparts
  split at hparts
  · rename_i htuple
    rw [← Option.some.inj hparts]
    exact htuple.2.2
  · cases hparts

theorem accounted_name (text : Text) : (name text).Accounted := by
  rw [name]
  split
  · exact Description.accounted_unknown _
  · split
    · rename_i atRunTime hlookup
      have hname : ∀ entry ∈ primitives.map Prod.snd, entry ∈ Descriptor.primitiveNames := by decide
      exact ⟨.primitive (hname atRunTime (mem_map_snd_of_lookup hlookup)), List.Sublist.refl _⟩
    · split <;> exact Description.accounted_unknown _

include h

theorem accounted_of_mem_map {texts : List Text} : ∀ t ∈ texts.map describe, t.Accounted := by
  intro t ht
  obtain ⟨text, -, rfl⟩ := List.mem_map.mp ht
  exact h text

theorem accounted_param (text : Text) : (param describe text).Accounted := by
  rw [param]
  split
  · exact h text
  · rename_i type isOptional hlabelled
    split
    · exact (h type).wrapper (by decide)
    · exact h type

theorem accounted_function (before after : Text) : (function describe before after).Accounted := by
  have hparams := @accounted_of_mem_map _ (accounted_param h) (paramTexts before)
  constructor
  · exact .function (Description.wellFormed_of_mem_descriptors hparams) (h after).wellFormed
  · exact (Description.reasons_descriptors hparams).append (h after).reasons

theorem accounted_tuple {texts : List Text} (hlength : 2 ≤ texts.length) :
    (Description.mk (.tuple (Description.descriptors (texts.map describe)))
      (Description.allWarnings (texts.map describe))).Accounted := by
  have helements := @accounted_of_mem_map _ h texts
  constructor
  · apply Descriptor.WellFormed.tuple _ (Description.wellFormed_of_mem_descriptors helements)
    simpa [Description.descriptors] using hlength
  · exact Description.reasons_descriptors helements

/-- A field has its name and an accounted type, or only a warning. -/
theorem accounted_field (part : Text) :
    (∀ f ∈ (field describe part).1, f.2.WellFormed) ∧
      ((field describe part).1.flatMap fun f => f.2.reasons).Sublist (field describe part).2 := by
  rw [field]
  split
  · exact ⟨fun f hf => absurd hf List.not_mem_nil, List.nil_sublist _⟩
  · rename_i colon type htype
    exact ⟨List.forall_mem_singleton.mpr (h type).wellFormed, by simpa using (h type).reasons⟩

theorem accounted_record (body : Text) : (record describe body).Accounted := by
  constructor
  · apply Descriptor.WellFormed.record
    intro f hf
    obtain ⟨fields, hfields, hmem⟩ := List.mem_flatMap.mp hf
    obtain ⟨part, -, rfl⟩ := List.mem_map.mp hfields
    exact (accounted_field h part).1 f hmem
  · rw [record, Descriptor.reasons, Descriptor.fieldReasons_eq, List.flatMap_assoc]
    apply List.Sublist.flatMap_right
    intro fields hfields
    obtain ⟨part, -, rfl⟩ := List.mem_map.mp hfields
    exact (accounted_field h part).2

/-- Arguments that are left out of the descriptor keep their warnings. -/
theorem accounted_application (callee : Text) (args : List Text) :
    (application describe callee args).Accounted := by
  rw [application]
  split
  · exact ⟨.unknown _, List.sublist_append_right _ _⟩
  · rename_i wrapperName hlookup
    have hnames : ∀ entry ∈ wrappers.map Prod.snd, entry ∈ Descriptor.wrapperNames := by decide
    have hname := hnames wrapperName (mem_map_snd_of_lookup hlookup)
    cases args with
    | nil => exact (Description.accounted_unknown (.missingArgument callee)).wrapper hname
    | cons first rest =>
      rw [List.map_cons]
      constructor
      · exact .wrapper hname (h first).wellFormed
      · rw [Descriptor.reasons_wrapper]
        exact (h first).reasons.trans (List.sublist_append_left _ _)

theorem accounted_primary (text : Text) : (primary describe text).Accounted := by
  rw [primary]
  split
  · exact Description.accounted_unknown _
  · split
    · rename_i parts hparts
      exact accounted_tuple h (length_of_tupleParts? hparts)
    · split
      · exact accounted_record h _
      · split
        · exact accounted_application h _ _
        · exact accounted_name text

theorem accounted_step (text : Text) : (step describe text).Accounted := by
  unfold step
  simp only
  split
  · exact ⟨.primitive (by decide), List.Sublist.refl _⟩
  · split
    · exact accounted_function h _ _
    · exact accounted_primary h _

omit h

/-- Nothing stays unknown without a warning, at any height and where the height runs out. -/
theorem accounted_describeWithin (n : Nat) (text : Text) : (describeWithin n text).Accounted := by
  induction n generalizing text with
  | zero => exact Description.accounted_unknown _
  | succ n ih => exact accounted_step ih text

/-- Whatever a type says, its description has known names only. -/
theorem resolved_describe (text : Text) : (TypeText.describe text).descriptor.Resolved :=
  (accounted_describeWithin maxHeight text).wellFormed.resolved

end TypeText

/-! ### Types without unknown parts -/

namespace Typescript

open Descriptor

/-- A type that is written without the type of unknown values. -/
inductive Known : Text → Prop
  | primitive {name : Text} (h : name ∈ primitiveNames) : Known name
  | function {params : List Text} {result : Text} (hparams : ∀ p ∈ params, Known p)
      (hresult : Known result) :
      Known ('(' :: (join ", ".toList (numberParams 0 params) ++ ") => ".toList ++ result))
  | tuple {elements : List Text} (h : ∀ e ∈ elements, Known e) :
      Known ('\x5b' :: (join ", ".toList elements ++ ['\x5d']))
  | emptyRecord : Known "\x7b\x7d".toList
  | record {fields : List (Text × Text)} (hne : fields ≠ []) (h : ∀ f ∈ fields, Known f.2) :
      Known ("\x7b ".toList ++ join "; ".toList (fields.map fun f =>
        propertyKey f.1 ++ ": ".toList ++ f.2) ++ " \x7d".toList)
  | dictionary {value : Text} (h : Known value) :
      Known ("\x7b [key: string]: ".toList ++ value ++ " \x7d".toList)
  | applied {opening argument : Text} (hopening : opening ∈ ["Array<".toList, "Promise<".toList])
      (h : Known argument) : Known (opening ++ argument ++ ['>'])
  | union {member ending : Text} (h : Known member) (hending : ending ∈
      [" | undefined)".toList, " | null | undefined)".toList, " | null)".toList]) :
      Known ('(' :: (member ++ ending))
  | parenthesized {type : Text} (h : Known type) : Known ('(' :: (type ++ [')']))

/-- No type that is written this way is the type of unknown values itself. -/
theorem Known.ne_unknown {type : Text} (h : Known type) : type ≠ "unknown".toList := by
  cases h with
  | primitive hname =>
    rintro rfl
    exact absurd hname (by decide)
  | applied hopening harg =>
    rcases List.mem_cons.mp hopening with rfl | hopening
    · exact fun heq => absurd (List.cons.inj heq).1 (by decide)
    · rw [List.mem_singleton.mp hopening]
      exact fun heq => absurd (List.cons.inj heq).1 (by decide)
  | _ => exact fun heq => absurd (List.cons.inj heq).1 (by decide)

theorem known_wrap {name : Text} (hname : name ∈ wrapperNames) {arg : Text} (h : Known arg)
    (argIsFunction : Bool) : Known (wrap name arg argIsFunction) := by
  have hoperand : Known (if argIsFunction then '(' :: (arg ++ [')']) else arg) := by
    split
    · exact .parenthesized h
    · exact h
  simp only [wrapperNames, List.mem_cons, List.not_mem_nil, or_false] at hname
  rcases hname with rfl | rfl | rfl | rfl | rfl | rfl
  · exact .applied List.mem_cons_self h
  · exact .union hoperand (by simp)
  · exact .union hoperand (by simp)
  · exact .union hoperand (by simp)
  · exact .applied (List.mem_cons_of_mem _ List.mem_cons_self) h
  · exact .dictionary h

/-- A descriptor without unknown parts is rendered without the type of unknown values. -/
theorem known_render {d : Descriptor} (hd : d.WellFormed) (h : d.reasons = []) :
    Known (render d) := by
  induction hd with
  | primitive hname => exact .primitive hname
  | @function params result hparams hresult ihparams ihresult =>
    rw [reasons, allReasons_eq, List.append_eq_nil_iff, List.flatMap_eq_nil_iff] at h
    rw [render, renderAll_eq]
    apply Known.function _ (ihresult h.2)
    exact List.forall_mem_map.mpr fun p hp => ihparams p hp (h.1 p hp)
  | @tuple elements hlength helements ih =>
    rw [reasons, allReasons_eq, List.flatMap_eq_nil_iff] at h
    rw [render, renderAll_eq]
    exact .tuple (List.forall_mem_map.mpr fun e he => ih e he (h e he))
  | @record fields hfields ih =>
    rw [reasons, fieldReasons_eq, List.flatMap_eq_nil_iff] at h
    cases fields with
    | nil => exact .emptyRecord
    | cons first rest =>
      have hknown : ∀ f ∈ (first :: rest).map fun f => (f.1, render f.2), Known f.2 := by
        intro f hf
        obtain ⟨field, hfield, rfl⟩ := List.mem_map.mp hf
        exact ih field hfield (h field hfield)
      have hparts := renderFields_eq (first :: rest)
      rw [show (fun f : Text × Descriptor => propertyKey f.1 ++ ": ".toList ++ render f.2) =
        (fun f => propertyKey f.1 ++ ": ".toList ++ f.2) ∘ fun f => (f.1, render f.2) from rfl,
        ← List.map_map] at hparts
      rw [render, hparts]
      exact .record (List.cons_ne_nil _ _) hknown
  | @wrapper name arg hname harg ih =>
    rw [reasons_wrapper] at h
    exact known_wrap hname (ih h) _
  | unknown reason => cases h

end Typescript

/-- Every descriptor is well formed, no part of it is unknown without a warning, and without
warnings it is rendered as a type in which nothing is unknown. -/
theorem TypeText.reasons_of_describe (text : Text) :
    (TypeText.describe text).descriptor.WellFormed ∧
      (TypeText.describe text).descriptor.reasons.Sublist (TypeText.describe text).warnings ∧
      ((TypeText.describe text).warnings = [] →
        Typescript.Known (Typescript.render (TypeText.describe text).descriptor)) := by
  have haccounted : (TypeText.describe text).Accounted := accounted_describeWithin maxHeight text
  refine ⟨haccounted.wellFormed, haccounted.reasons, ?_⟩
  intro hwarnings
  apply Typescript.known_render haccounted.wellFormed
  rw [← List.sublist_nil, ← hwarnings]
  exact haccounted.reasons

end ForeignBindings
