import ForeignBindings.Project.Configuration
import ForeignBindings.Proofs.Files.Tree
import ForeignBindings.Proofs.Traversal

/-! Which refusals come through.  That a path leads nowhere is no error, so what a search for files
and a look at a directory pass on is that a name is too long, or that something is not permitted. -/

namespace ForeignBindings

/-! ### Looks, lists and searches -/

/-- The refusal is an error wherever it is met; that a path leads nowhere is none. -/
def Refusal.Blocks (refusal : Refusal) : Prop :=
  refusal = .nameTooLong ∨ refusal = .permissionDenied

theorem FileTree.refusal_of_follow {above : List FileTree} {here : FileTree} {names : List Text}
    {refusal : Refusal} (h : here.follow above names = .error refusal) :
    refusal = .notFound ∨ refusal = .notDirectory ∨ refusal = .nameTooLong := by
  induction names generalizing above here with
  | nil => cases h
  | cons name rest ih =>
    cases here with
    | file bytes =>
      obtain rfl := Except.error.inj h
      exact .inr (.inl rfl)
    | directory entries =>
      simp only [follow] at h
      split at h
      · split at h
        · exact ih h
        · exact ih h
      · split at h
        · obtain rfl := Except.error.inj h
          exact .inr (.inr rfl)
        · split at h
          · exact ih h
          · obtain rfl := Except.error.inj h
            exact .inl rfl

theorem Text.join_ne_nil {separator part : Text} {parts : List Text} (hmem : part ∈ parts)
    (h : part ≠ []) : join separator parts ≠ [] := by
  induction parts with
  | nil => cases hmem
  | cons first parts ih =>
    cases parts with
    | nil =>
      obtain rfl := List.mem_singleton.mp hmem
      simpa [join, List.intercalate] using h
    | cons next more =>
      rw [join, List.intercalate_cons_cons]
      rcases List.mem_cons.mp hmem with rfl | hmem
      · simp [h]
      · exact List.append_ne_nil_of_right_ne_nil _ (ih hmem)

namespace FileSystem

variable {fs : FileSystem} {access : Access} {path : Path} {found : FileTree} {e : SystemError}

/-- Whatever is asked about a path, it leads nowhere or the refusal is an error. -/
theorem refusal_of_find {refusal : Refusal} (h : fs.find access path = .error refusal) :
    refusal = .notFound ∨ refusal = .notDirectory ∨ refusal.Blocks := by
  rw [find] at h
  split at h
  · exact .inl (Except.error.inj h).symm
  · split at h
    · exact .inr (.inr (.inl (Except.error.inj h).symm))
    · split at h
      · exact .inr (.inr (.inr (Except.error.inj h).symm))
      · rcases FileTree.refusal_of_follow h with rfl | rfl | rfl
        · exact .inl rfl
        · exact .inr (.inl rfl)
        · exact .inr (.inr (.inl rfl))

theorem look_of_missing {refusal : Refusal} (h : fs.find .look path = .error refusal)
    (hmissing : ¬refusal.Blocks) : fs.look path = .ok none := by
  rw [look, h]
  rcases refusal_of_find h with rfl | rfl | hblocks
  · rfl
  · rfl
  · exact absurd hblocks hmissing

/-- A path cannot be looked at exactly if that is refused with an error. -/
theorem look_eq_error_iff : fs.look path = .error e ↔
    ∃ refusal, refusal.Blocks ∧ fs.find .look path = .error refusal ∧
      .about refusal path.text = e := by
  rw [look]
  cases hfind : fs.find .look path with
  | ok tree => simp
  | error refusal =>
    rcases refusal_of_find hfind with rfl | rfl | rfl | rfl <;> simp [Refusal.Blocks]

theorem look_eq_ok_some_iff : fs.look path = .ok (some found) ↔ fs.find .look path = .ok found := by
  rw [look]
  cases hfind : fs.find .look path with
  | ok tree => simp
  | error refusal => cases refusal <;> simp

theorem hasDirectory_eq_true_iff : fs.hasDirectory path = .ok true ↔
    ∃ es, fs.find .look path = .ok (.directory es) := by
  rw [hasDirectory, map_eq_ok_iff]
  constructor
  · rintro ⟨found?, hlook, hdirectory⟩
    cases found? with
    | none => cases hdirectory
    | some found =>
      cases found with
      | file bytes => cases hdirectory
      | directory es => exact ⟨es, look_eq_ok_some_iff.mp hlook⟩
  · rintro ⟨es, hfind⟩
    exact ⟨_, look_eq_ok_some_iff.mpr hfind, rfl⟩

/-- The names of a directory are those of its entries, unless they may not be listed. -/
theorem list_of_find {es : Catalog FileTree} (h : fs.find .look path = .ok (.directory es)) :
    fs.list path = if fs.permits .list path then .ok (Catalog.sorted es).names
      else .error (.about .permissionDenied path.text) := by
  obtain ⟨hnull, hsize, -, hfollow⟩ := find_eq_ok_iff.mp h
  rw [list, find, if_neg (by simp [hnull]), if_neg (Nat.not_lt.mpr hsize)]
  cases fs.permits .list path with
  | false => rfl
  | true =>
    rw [if_neg (by simp), hfollow]
    rfl

theorem blocks_of_look (h : fs.look path = .error e) : e.refusal.Blocks := by
  obtain ⟨refusal, hblocks, -, rfl⟩ := look_eq_error_iff.mp h
  exact hblocks

theorem blocks_of_hasDirectory (h : fs.hasDirectory path = .error e) : e.refusal.Blocks :=
  blocks_of_look (map_error_iff.mp h)

theorem blocks_of_names (h : fs.names path = .error e) : e.refusal.Blocks := by
  rcases bind_eq_error_iff.mp h with hlook | ⟨isDirectory, hlook, hlist⟩
  · exact blocks_of_hasDirectory hlook
  · cases isDirectory with
    | false => cases hlist
    | true =>
      obtain ⟨es, hfind⟩ := hasDirectory_eq_true_iff.mp hlook
      change fs.list path = .error e at hlist
      rw [list_of_find hfind] at hlist
      split at hlist
      · cases hlist
      · obtain rfl := Except.error.inj hlist
        exact .inr rfl

theorem blocks_of_firstFile? {paths : List Path} (h : fs.firstFile? paths = .error e) :
    e.refusal.Blocks := by
  induction paths with
  | nil => cases h
  | cons candidate rest ih =>
    rw [firstFile?] at h
    split at h
    · rename_i hfile
      obtain rfl := Except.error.inj h
      exact blocks_of_look (map_error_iff.mp hfile)
    · cases h
    · exact ih h

/-! ### Configurations -/

theorem mem_of_firstFile? {paths : List Path} (h : fs.firstFile? paths = .ok (some path)) :
    path ∈ paths := by
  induction paths with
  | nil => cases h
  | cons candidate rest ih =>
    rw [firstFile?] at h
    split at h
    · cases h
    · obtain rfl := Option.some.inj (Except.ok.inj h)
      exact List.mem_cons_self
    · exact List.mem_cons_of_mem _ (ih h)

/-- The path of a configuration has a text, since it ends with the name of a configuration. -/
theorem text_ne_nil_of_configuration? {start : Path}
    (h : fs.configuration? start = .ok (some path)) : path.text ≠ [] := by
  obtain ⟨directory, -, hchild⟩ := List.mem_flatMap.mp (mem_of_firstFile? h)
  obtain ⟨name, hname, rfl⟩ := List.mem_map.mp hchild
  have hne : name ≠ [] := by
    rintro rfl
    exact absurd hname (by decide)
  rw [Path.text, if_neg (by simp [Path.child])]
  exact List.append_ne_nil_of_right_ne_nil _
    (Text.join_ne_nil (List.mem_append_right _ List.mem_cons_self) hne)

end FileSystem

end ForeignBindings
