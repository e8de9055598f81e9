import Mathlib.Data.List.Basic
import Mathlib.Data.List.Forall2

/-! Computations that can fail, one after the other.  A stage gives a value exactly if all that it
is made of does, and a traversal of a list fails by the first element that does. -/

namespace ForeignBindings

variable {α β ε ε' : Type} {x : Except ε α}

theorem map_error_iff {f : α → β} {e : ε} : x.map f = .error e ↔ x = .error e := by
  cases x <;> simp [Except.map]

theorem map_eq_ok_iff {f : α → β} {b : β} : x.map f = .ok b ↔ ∃ a, x = .ok a ∧ f a = b := by
  cases x <;> simp [Except.map]

theorem toOption_eq_some_iff {a : α} : x.toOption = some a ↔ x = .ok a := by
  cases x <;> simp [Except.toOption]

theorem eq_ok_iff_toOption {list : List α} {x : Except ε (List α)} :
    x = .ok list ↔ (∃ found, x = .ok found) ∧ x.toOption.getD [] = list := by
  cases x <;> simp [Except.toOption]

theorem bind_eq_ok_iff {next : α → Except ε β} {b : β} :
    x >>= next = .ok b ↔ ∃ a, x = .ok a ∧ next a = .ok b := by
  cases x <;> simp [bind, Except.bind]

theorem bind_eq_error_iff {next : α → Except ε β} {e : ε} :
    x >>= next = .error e ↔ x = .error e ∨ ∃ a, x = .ok a ∧ next a = .error e := by
  cases x <;> simp [bind, Except.bind]

theorem mapError_eq_ok_iff {f : ε → ε'} {a : α} : x.mapError f = .ok a ↔ x = .ok a := by
  cases x with
  | error e =>
    change Except.error (f e) = .ok a ↔ _
    simp
  | ok b =>
    change Except.ok b = .ok a ↔ _
    simp

theorem mapError_eq_error_iff {f : ε → ε'} {e' : ε'} :
    x.mapError f = .error e' ↔ ∃ e, x = .error e ∧ f e = e' := by
  cases x with
  | error e =>
    change Except.error (f e) = .error e' ↔ _
    simp
  | ok b =>
    change Except.ok b = .error e' ↔ _
    simp

theorem flatMapM_cons_eq_ok_iff {f : α → Except ε (List β)} {first : α} {xs : List α}
    {ys : List β} : (first :: xs).flatMapM f = .ok ys ↔
      ∃ part rest, f first = .ok part ∧ xs.flatMapM f = .ok rest ∧ part ++ rest = ys := by
  rw [List.flatMapM_cons, bind_eq_ok_iff]
  refine exists_congr fun part => ?_
  rw [bind_eq_ok_iff]
  simp [pure, Except.pure]

/-- The first refusal among the parts is the refusal of the whole. -/
theorem flatMapM_eq_error_iff {f : α → Except ε (List β)} {xs : List α} {e : ε} :
    xs.flatMapM f = .error e ↔ ∃ before x after, xs = before ++ x :: after ∧
      (∀ y ∈ before, ∃ ys, f y = .ok ys) ∧ f x = .error e := by
  induction xs with
  | nil => simp [pure, Except.pure]
  | cons x xs ih =>
    rw [List.flatMapM_cons, bind_eq_error_iff]
    constructor
    · rintro (hx | ⟨ys, hx, hrest⟩)
      · exact ⟨[], x, xs, rfl, by simp, hx⟩
      · rcases bind_eq_error_iff.mp hrest with hrest | ⟨zs, -, hpure⟩
        · obtain ⟨before, y, after, rfl, hbefore, hy⟩ := ih.mp hrest
          exact ⟨x :: before, y, after, rfl, List.forall_mem_cons.mpr ⟨⟨ys, hx⟩, hbefore⟩, hy⟩
        · cases hpure
    · rintro ⟨before, y, after, hsplit, hbefore, hy⟩
      cases before with
      | nil =>
        obtain ⟨rfl, rfl⟩ := List.cons.inj hsplit
        exact .inl hy
      | cons z before =>
        obtain ⟨rfl, rfl⟩ := List.cons.inj hsplit
        obtain ⟨⟨ys, hys⟩, hbefore⟩ := List.forall_mem_cons.mp hbefore
        have hrest := ih.mpr ⟨before, y, after, rfl, hbefore, hy⟩
        exact .inr ⟨ys, hys, bind_eq_error_iff.mpr (.inl hrest)⟩

theorem flatMapM_error {f : α → Except ε (List β)} {xs : List α} {e : ε}
    (h : xs.flatMapM f = .error e) : ∃ x ∈ xs, f x = .error e := by
  obtain ⟨before, x, after, rfl, -, hx⟩ := flatMapM_eq_error_iff.mp h
  exact ⟨x, by simp, hx⟩

theorem part_of_flatMapM {f : α → Except ε (List β)} {xs : List α} {ys : List β}
    (h : xs.flatMapM f = .ok ys) {x : α} (hx : x ∈ xs) :
    ∃ part, f x = .ok part ∧ ∀ y ∈ part, y ∈ ys := by
  induction xs generalizing ys with
  | nil => cases hx
  | cons first xs ih =>
    obtain ⟨part, rest, hpart, hrest, rfl⟩ := flatMapM_cons_eq_ok_iff.mp h
    rcases List.mem_cons.mp hx with rfl | hx
    · exact ⟨part, hpart, fun y hy => List.mem_append_left _ hy⟩
    · obtain ⟨part', hpart', hmem⟩ := ih hrest hx
      exact ⟨part', hpart', fun y hy => List.mem_append_right _ (hmem y hy)⟩

theorem flatMapM_mono {f g : α → Except ε (List β)} {xs : List α} {ys : List β}
    (hfg : ∀ x zs, f x = .ok zs → g x = .ok zs) (h : xs.flatMapM f = .ok ys) :
    xs.flatMapM g = .ok ys := by
  induction xs generalizing ys with
  | nil => exact h
  | cons x xs ih =>
    obtain ⟨part, rest, hpart, hrest, hys⟩ := flatMapM_cons_eq_ok_iff.mp h
    exact flatMapM_cons_eq_ok_iff.mpr ⟨part, rest, hfg x part hpart, ih hrest, hys⟩

theorem flatMapM_eq_ok {f : α → Except ε (List β)} {xs : List α} {parts : List (List β)}
    (h : List.Forall₂ (fun x ys => f x = .ok ys) xs parts) :
    xs.flatMapM f = .ok parts.flatten := by
  induction h with
  | nil => rfl
  | cons hx _ ih => exact flatMapM_cons_eq_ok_iff.mpr ⟨_, _, hx, ih, rfl⟩

/-- If the parts give lists under conditions, the whole does under all of them. -/
theorem flatMapM_eq_ok_iff {f : α → Except ε (List β)} {p : α → Prop} {list : α → List β}
    (h : ∀ x ys, f x = .ok ys ↔ p x ∧ list x = ys) {xs : List α} {ys : List β} :
    xs.flatMapM f = .ok ys ↔ (∀ x ∈ xs, p x) ∧ xs.flatMap list = ys := by
  induction xs generalizing ys with
  | nil => simp [pure, Except.pure]
  | cons x xs ih =>
    rw [flatMapM_cons_eq_ok_iff, List.forall_mem_cons, List.flatMap_cons]
    simp only [ih, h]
    constructor
    · rintro ⟨_, _, ⟨hx, rfl⟩, ⟨hxs, rfl⟩, rfl⟩
      exact ⟨⟨hx, hxs⟩, rfl⟩
    · rintro ⟨⟨hx, hxs⟩, rfl⟩
      exact ⟨_, _, ⟨hx, rfl⟩, ⟨hxs, rfl⟩, rfl⟩

theorem map_flatMapM_eq_ok_iff {γ : Type} {f : α → Except ε (List β)} {p : α → Prop}
    {list : α → List β} (h : ∀ x ys, f x = .ok ys ↔ p x ∧ list x = ys) {g : List β → γ}
    {xs : List α} {z : γ} :
    (xs.flatMapM f).map g = .ok z ↔ (∀ x ∈ xs, p x) ∧ g (xs.flatMap list) = z := by
  simp only [map_eq_ok_iff, flatMapM_eq_ok_iff h]
  constructor
  · rintro ⟨_, ⟨hxs, rfl⟩, rfl⟩
    exact ⟨hxs, rfl⟩
  · rintro ⟨hxs, rfl⟩
    exact ⟨_, ⟨hxs, rfl⟩, rfl⟩

end ForeignBindings
