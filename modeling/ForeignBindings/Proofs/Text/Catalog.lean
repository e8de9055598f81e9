import ForeignBindings.Text.Catalog

/-! Catalogs as maps from names.  A catalog that is in order has one value for each name, and
insertion keeps it in order; a name that is inserted and erased again leaves nothing behind; and
sorting leads from each name to what it led to before. -/

namespace ForeignBindings

namespace Catalog

variable {α : Type} {catalog : Catalog α} {name : Text} {value : α}

/-! ### Values under names -/

theorem lookup_cons (catalog : Catalog α) (name other : Text) (value : α) :
    List.lookup other ((name, value) :: catalog) =
      if other = name then some value else catalog.lookup other := by
  rw [List.lookup_cons]
  by_cases h : other = name
  · rw [if_pos h, beq_iff_eq.mpr h]
  · rw [if_neg h, beq_eq_false_iff_ne.mpr h]

theorem lookup_insert (catalog : Catalog α) (name other : Text) (value : α) :
    (catalog.insert name value).lookup other =
      if other = name then some value else catalog.lookup other := by
  induction catalog with
  | nil => exact lookup_cons [] name other value
  | cons entry catalog ih =>
    obtain ⟨first, old⟩ := entry
    rw [insert]
    split
    · rw [lookup_cons]
    · split
      · rename_i heq
        subst heq
        rw [lookup_cons, lookup_cons]
        split <;> rfl
      · rename_i hne
        rw [lookup_cons, lookup_cons, ih]
        by_cases hfirst : other = first
        · rw [if_pos hfirst, if_neg (by rw [hfirst]; exact Ne.symm hne), if_pos hfirst]
        · rw [if_neg hfirst, if_neg hfirst]

theorem lookup_erase (catalog : Catalog α) (name other : Text) :
    (catalog.erase name).lookup other = if other = name then none else catalog.lookup other := by
  induction catalog with
  | nil => simp [erase]
  | cons entry catalog ih =>
    obtain ⟨first, value⟩ := entry
    rw [erase] at ih ⊢
    by_cases hfirst : first = name
    · rw [List.filter_cons_of_neg (by simp [hfirst]), ih, lookup_cons, hfirst]
      split <;> rfl
    · rw [List.filter_cons_of_pos (by simp [hfirst]), lookup_cons, lookup_cons, ih]
      by_cases hother : other = first
      · rw [if_pos hother, if_neg (by rw [hother]; exact hfirst), if_pos hother]
      · rw [if_neg hother, if_neg hother]

theorem lookup_map (catalog : Catalog α) (change : Text → α → α) (name : Text) :
    (catalog.map fun (other, value) => (other, change other value)).lookup name =
      (catalog.lookup name).map (change name) := by
  induction catalog with
  | nil => rfl
  | cons entry catalog ih =>
    obtain ⟨first, value⟩ := entry
    rw [List.map_cons, lookup_cons, lookup_cons, ih]
    split
    · rename_i heq
      rw [heq]
      rfl
    · rfl

theorem mem_names_iff : name ∈ catalog.names ↔ (catalog.lookup name).isSome = true := by
  induction catalog with
  | nil => simp [names]
  | cons entry catalog ih =>
    obtain ⟨first, value⟩ := entry
    rw [names] at ih ⊢
    rw [List.map_cons, List.mem_cons, ih, lookup_cons]
    by_cases h : name = first <;> simp [h]

theorem lookup_eq_none_iff : catalog.lookup name = none ↔ name ∉ catalog.names := by
  rw [mem_names_iff, Option.not_isSome_iff_eq_none]

theorem mem_insert {entry : Text × α} (h : entry ∈ catalog.insert name value) :
    entry = (name, value) ∨ entry ∈ catalog := by
  induction catalog with
  | nil => exact .inl (List.mem_singleton.mp h)
  | cons first catalog ih =>
    rw [insert] at h
    split at h
    · exact List.mem_cons.mp h
    · split at h
      · exact (List.mem_cons.mp h).imp_right (List.mem_cons_of_mem _)
      · rcases List.mem_cons.mp h with rfl | h
        · exact .inr List.mem_cons_self
        · exact (ih h).imp_right (List.mem_cons_of_mem _)

theorem mem_names_insert {other : Text} :
    other ∈ (catalog.insert name value).names ↔ other = name ∨ other ∈ catalog.names := by
  rw [mem_names_iff, mem_names_iff, lookup_insert]
  by_cases h : other = name <;> simp [h]

/-! ### Erasing what was inserted -/

theorem erase_of_not_mem (h : name ∉ catalog.names) : catalog.erase name = catalog := by
  rw [erase, List.filter_eq_self]
  intro entry hentry
  rw [bne_iff_ne]
  rintro rfl
  exact h (List.mem_map_of_mem hentry)

theorem erase_insert (h : name ∉ catalog.names) :
    (catalog.insert name value).erase name = catalog := by
  induction catalog with
  | nil => simp [insert, erase]
  | cons entry catalog ih =>
    obtain ⟨first, old⟩ := entry
    obtain ⟨hfirst, hrest⟩ : name ≠ first ∧ name ∉ names catalog := by simpa [names] using h
    rw [insert]
    split
    · rw [erase, List.filter_cons_of_neg (by simp)]
      exact erase_of_not_mem h
    · rw [erase, List.filter_cons_of_pos (by simp [Ne.symm hfirst])]
      exact congrArg _ (ih hrest)

theorem erase_comm (catalog : Catalog α) (name other : Text) :
    (catalog.erase name).erase other = (catalog.erase other).erase name := by
  simp only [erase, List.filter_filter, Bool.and_comm]

/-! ### Order -/

/-- The names are in increasing order. -/
def Sorted (catalog : Catalog α) : Prop := catalog.names.Pairwise (· < ·)

theorem sorted_cons {entry : Text × α} :
    Sorted (entry :: catalog) ↔ (∀ other ∈ catalog.names, entry.1 < other) ∧ catalog.Sorted :=
  List.pairwise_cons

theorem Sorted.insert (h : catalog.Sorted) : (catalog.insert name value).Sorted := by
  induction catalog with
  | nil => exact List.pairwise_singleton _ _
  | cons entry catalog ih =>
    obtain ⟨first, old⟩ := entry
    obtain ⟨hfirst, hrest⟩ := sorted_cons.mp h
    rw [Catalog.insert]
    split
    · rename_i hlt
      refine sorted_cons.mpr ⟨fun other hother => ?_, h⟩
      rcases List.mem_cons.mp hother with rfl | hother
      · exact hlt
      · exact List.lt_trans hlt (hfirst other hother)
    · split
      · rename_i heq
        subst heq
        exact sorted_cons.mpr ⟨hfirst, hrest⟩
      · rename_i hnot hne
        refine sorted_cons.mpr ⟨fun other hother => ?_, ih hrest⟩
        rcases mem_names_insert.mp hother with rfl | hother
        · exact Decidable.byContradiction fun h =>
            hne (Std.Trichotomous.trichotomous _ _ hnot h)
        · exact hfirst other hother

theorem Sorted.lookup_eq_some_iff (h : catalog.Sorted) :
    catalog.lookup name = some value ↔ (name, value) ∈ catalog := by
  induction catalog with
  | nil => simp
  | cons entry catalog ih =>
    obtain ⟨first, old⟩ := entry
    obtain ⟨hfirst, hrest⟩ := sorted_cons.mp h
    rw [lookup_cons, List.mem_cons, ← ih hrest]
    by_cases heq : name = first
    · subst heq
      -- a second value would stand under a name that is greater than itself
      have hnone : catalog.lookup name = none :=
        lookup_eq_none_iff.mpr fun hmem => List.lt_irrefl _ (hfirst name hmem)
      simp [hnone, eq_comm]
    · simp [heq]

/-! ### Sorting -/

theorem sorted_cons_eq (entry : Text × α) (entries : List (Text × α)) :
    sorted (entry :: entries) = insert entry.1 entry.2 (sorted entries) :=
  rfl

theorem sorted_sorted (entries : List (Text × α)) : (sorted entries).Sorted := by
  induction entries with
  | nil => exact List.Pairwise.nil
  | cons entry entries ih =>
    rw [sorted_cons_eq]
    exact ih.insert

theorem lookup_sorted (entries : List (Text × α)) (name : Text) :
    (sorted entries).lookup name = entries.lookup name := by
  induction entries with
  | nil => rfl
  | cons entry entries ih =>
    obtain ⟨first, value⟩ := entry
    rw [sorted_cons_eq, lookup_insert, lookup_cons, ih]

/-- Sorting keeps the names. -/
theorem mem_names_sorted {entries : List (Text × α)} :
    name ∈ (sorted entries).names ↔ ∃ value, entries.lookup name = some value := by
  rw [mem_names_iff, lookup_sorted, Option.isSome_iff_exists]

end Catalog

end ForeignBindings
