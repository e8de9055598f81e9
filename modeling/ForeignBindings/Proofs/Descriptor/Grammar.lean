import ForeignBindings.Proofs.Descriptor.Step

/-! The grammar of types: syntax trees, their written form and their meaning.  Describing the
written form of a tree that is not too high gives exactly its meaning. -/

namespace ForeignBindings

open Text Depth TypeText

/-- A type by its syntax.  A name is primitive, or a variable, or unresolved; a generic type is one
of the wrappers around one argument, or an unresolved name applied to arguments. -/
inductive TypeTree
  | primitive (name : Identifier) (atRunTime : Text)
      (known : primitives.lookup name.text = some atRunTime)
  | variable (name : Identifier)
  | unresolved (path : NamePath) (unknown : primitives.lookup path.text = none)
  | tuple (first second : TypeTree) (rest : List TypeTree)
  | record (fields : List (Field TypeTree))
  | wrapper (callee : NamePath) (name : Text) (known : wrappers.lookup callee.text = some name)
      (arg : TypeTree)
  | application (callee : NamePath) (unknown : wrappers.lookup callee.text = none)
      (first : TypeTree) (rest : List TypeTree)
  | function (params : List (Param TypeTree)) (result : TypeTree)

namespace TypeTree

def children : TypeTree → List TypeTree
  | .tuple first second rest => first :: second :: rest
  | .record fields => fields.map Field.type
  | .wrapper _ _ _ arg => [arg]
  | .application _ _ first rest => first :: rest
  | .function params result => params.map Param.type ++ [result]
  | _ => []

theorem sizeOf_field_lt {fields : List (Field TypeTree)} {f : Field TypeTree} (h : f ∈ fields) :
    sizeOf f.type < sizeOf fields := by
  have hmem := List.sizeOf_lt_of_mem h
  obtain ⟨isMutable, name, type⟩ := f
  simp only [Field.mk.sizeOf_spec] at hmem
  change sizeOf type < sizeOf fields
  omega

theorem sizeOf_param_lt {params : List (Param TypeTree)} {p : Param TypeTree} (h : p ∈ params) :
    sizeOf p.type < sizeOf params := by
  have hmem := List.sizeOf_lt_of_mem h
  obtain ⟨label, type⟩ := p
  simp only [Param.mk.sizeOf_spec] at hmem
  change sizeOf type < sizeOf params
  omega

theorem sizeOf_child_lt {tree child : TypeTree} (h : child ∈ tree.children) :
    sizeOf child < sizeOf tree := by
  cases tree with
  | primitive name atRunTime known => simp [children] at h
  | «variable» name => simp [children] at h
  | unresolved path unknown => simp [children] at h
  | tuple first second rest =>
    simp only [children, List.mem_cons] at h
    rcases h with rfl | rfl | h
    · simp only [tuple.sizeOf_spec]; omega
    · simp only [tuple.sizeOf_spec]; omega
    · have := List.sizeOf_lt_of_mem h
      simp only [tuple.sizeOf_spec]; omega
  | record fields =>
    obtain ⟨f, hf, rfl⟩ := List.mem_map.mp h
    have := sizeOf_field_lt hf
    simp only [record.sizeOf_spec]; omega
  | wrapper callee name known arg =>
    obtain rfl := List.mem_singleton.mp h
    simp only [wrapper.sizeOf_spec]; omega
  | application callee unknown first rest =>
    rcases List.mem_cons.mp h with rfl | h
    · simp only [application.sizeOf_spec]; omega
    · have := List.sizeOf_lt_of_mem h
      simp only [application.sizeOf_spec]; omega
  | function params result =>
    simp only [children, List.mem_append, List.mem_singleton] at h
    rcases h with h | rfl
    · obtain ⟨p, hp, rfl⟩ := List.mem_map.mp h
      have := sizeOf_param_lt hp
      simp only [function.sizeOf_spec]; omega
    · simp only [function.sizeOf_spec]; omega

/-- The number of levels of a type; a name has one. -/
def height (tree : TypeTree) : Nat :=
  (tree.children.attach.map fun child => child.1.height).foldr max 0 + 1
termination_by tree
decreasing_by exact sizeOf_child_lt child.2

/-- A type as it is written, with one blank after each comma and colon and around each arrow. -/
def text : TypeTree → Text
  | .primitive name _ _ => name.text
  | .variable name => '\x27' :: name.text
  | .unresolved path _ => path.text
  | .tuple first second rest =>
    enclosed '(' ')' (join commaBlank (first.text :: second.text :: rest.map text))
  | .record fields =>
    enclosed '\x7b' '\x7d' (join commaBlank (fields.map fun f =>
      Field.text ⟨f.isMutable, f.name, f.type.text⟩))
  | .wrapper callee _ _ arg => applied callee [arg.text]
  | .application callee _ first rest => applied callee (first.text :: rest.map text)
  | .function params result =>
    enclosed '(' ')' (join commaBlank (params.map fun p => Param.text ⟨p.label, p.type.text⟩)) ++
      ' ' :: '=' :: '>' :: ' ' :: result.text
termination_by tree => tree
decreasing_by
  all_goals first
    | decreasing_tactic
    | (have hlt := sizeOf_field_lt ‹_›; simp only [record.sizeOf_spec]; omega)
    | (have hlt := sizeOf_param_lt ‹_›; simp only [function.sizeOf_spec]; omega)

/-- What a type means: its descriptor, and its doubts from left to right. -/
def description : TypeTree → Description
  | .primitive _ atRunTime _ => .plain (.primitive atRunTime)
  | .variable name => .unknown (.typeVariable ('\x27' :: name.text))
  | .unresolved path _ => .unknown (.unresolved path.text)
  | .tuple first second rest =>
    let elements := first.description :: second.description :: rest.map description
    ⟨.tuple (Description.descriptors elements), Description.allWarnings elements⟩
  | .record fields =>
    describedRecord (fields.map fun f => (f.name.text, f.type.description))
  | .wrapper _ name _ arg => arg.description.map fun d => .wrapper name [d]
  | .application callee _ first rest =>
    let doubt := Doubt.unresolved callee.text
    ⟨.unknown doubt.message,
      Description.allWarnings (first.description :: rest.map description) ++ [doubt.message]⟩
  | .function params result =>
    let described := params.map fun p => p.label.described p.type.description
    ⟨.function (Description.descriptors described) result.description.descriptor,
      Description.allWarnings described ++ result.description.warnings⟩
termination_by tree => tree
decreasing_by
  all_goals first
    | decreasing_tactic
    | (have hlt := sizeOf_field_lt ‹_›; simp only [record.sizeOf_spec]; omega)
    | (have hlt := sizeOf_param_lt ‹_›; simp only [function.sizeOf_spec]; omega)

/-- The description of a type whose children, as they are written in it, are described by
`describe`. -/
def describedBy (describe : Text → Description) : TypeTree → Description
  | .primitive _ atRunTime _ => .plain (.primitive atRunTime)
  | .variable name => .unknown (.typeVariable ('\x27' :: name.text))
  | .unresolved path _ => .unknown (.unresolved path.text)
  | .tuple first second rest =>
    let elements := ((first :: second :: rest).map text).map describe
    ⟨.tuple (Description.descriptors elements), Description.allWarnings elements⟩
  | .record fields =>
    describedRecord (fields.map fun f => (f.name.text, describe (' ' :: f.type.text)))
  | .wrapper _ name _ arg => (describe arg.text).map fun d => .wrapper name [d]
  | .application callee _ first rest =>
    let doubt := Doubt.unresolved callee.text
    ⟨.unknown doubt.message,
      Description.allWarnings (((first :: rest).map text).map describe) ++ [doubt.message]⟩
  | .function params result =>
    let described := params.map fun p => describedParam describe ⟨p.label, p.type.text⟩
    ⟨.function (Description.descriptors described) (describe (' ' :: result.text)).descriptor,
      Description.allWarnings described ++ (describe (' ' :: result.text)).warnings⟩

theorem height_le_succ_iff {tree : TypeTree} {n : Nat} :
    tree.height ≤ n + 1 ↔ ∀ child ∈ tree.children, child.height ≤ n := by
  have hmax : ∀ heights : List Nat, heights.foldr max 0 ≤ n ↔ ∀ m ∈ heights, m ≤ n := by
    intro heights
    induction heights with
    | nil => simp
    | cons m heights ih => rw [List.foldr_cons, Nat.max_le, ih, List.forall_mem_cons]
  rw [height, Nat.add_le_add_iff_right, hmax]
  simp

theorem height_child_lt {tree child : TypeTree} (h : child ∈ tree.children) :
    child.height < tree.height := by
  cases hheight : tree.height with
  | zero => rw [height] at hheight; cases hheight
  | succ n => exact Nat.lt_succ_of_le (height_le_succ_iff.mp (Nat.le_of_eq hheight) child h)

theorem induct {motive : TypeTree → Prop}
    (step : ∀ tree, (∀ child ∈ tree.children, motive child) → motive tree) (tree : TypeTree) :
    motive tree :=
  step tree fun child _ => induct step child
termination_by tree
decreasing_by exact sizeOf_child_lt ‹_›

/-! ### The written form is a part -/

theorem isType_text (tree : TypeTree) : IsType tree.text := by
  induction tree using induct with
  | step tree ih =>
    have hparts : ∀ part ∈ tree.children.map text, IsPart part := by
      intro part hpart
      obtain ⟨child, hchild, rfl⟩ := List.mem_map.mp hpart
      exact (ih child hchild).toIsPart
    cases tree with
    | primitive name atRunTime known =>
      rw [text]
      simpa [NamePath.text] using isType_path ⟨name, []⟩
    | «variable» name =>
      rw [text]
      exact isType_variable name
    | unresolved path unknown =>
      rw [text]
      exact isType_path path
    | tuple first second rest =>
      rw [text]
      exact isType_enclosed hparts Pair.round
    | record fields =>
      rw [text]
      apply isType_enclosed _ Pair.curly
      intro part hpart
      obtain ⟨f, hf, rfl⟩ := List.mem_map.mp hpart
      exact isPart_field (ih f.type (List.mem_map_of_mem hf))
    | wrapper callee name known arg =>
      rw [text]
      exact isType_applied callee hparts
    | application callee unknown first rest =>
      rw [text]
      exact isType_applied callee hparts
    | function params result =>
      rw [text]
      apply isType_function _ (ih result (by simp [children]))
      intro part hpart
      obtain ⟨p, hp, rfl⟩ := List.mem_map.mp hpart
      exact isPart_param (ih p.type (List.mem_append_left _ (List.mem_map_of_mem hp)))

/-! ### Describing the written form -/

theorem step_path {describe : Text → Description} {body : Text} {path : NamePath}
    (ht : body.trim = path.text) : step describe body = name path.text := by
  have hundivided {separator : Text} (h : ∀ c, isWordChar c = true ∨ c = '.' → separator ≠ [c]) :=
    (path.undivided h).lacks
  apply step_name ht (path.begins_ne rfl) (path.begins_ne rfl)
  · exact hundivided fun c _ => by simp [Piece.arrowText]
  · exact hundivided fun _ hc => singleton_ne_of_path hc rfl (by decide)

theorem head?_path_ne (path : NamePath) : path.text.head? ≠ some '\x27' := by
  obtain ⟨c, hc, hword⟩ := path.begins_word
  rw [hc, Ne, Option.some.injEq]
  exact ne_of_isWordChar hword rfl

/-- One step describes a type by what describes the types in it. -/
theorem step_text {describe : Text → Description} {tree : TypeTree} {body : Text}
    (ht : body.trim = tree.text) : step describe body = tree.describedBy describe := by
  have hparts : ∀ part ∈ tree.children.map text, IsPart part := by
    intro part hpart
    obtain ⟨child, -, rfl⟩ := List.mem_map.mp hpart
    exact (isType_text child).toIsPart
  cases tree with
  | primitive primitiveName atRunTime known =>
    rw [text] at ht
    rw [@step_path _ _ ⟨primitiveName, []⟩ (by simpa [NamePath.text] using ht), name,
      if_neg (head?_path_ne _), describedBy]
    simp [NamePath.text, known]
  | «variable» variableName =>
    have htype := isType_variable variableName
    rw [text] at ht
    have hlacks {separator : Text} (hword : ∀ c, isWordChar c = true → separator ≠ [c])
        (hquote : separator ≠ ['\x27']) := (variableName.undivided_variable hword hquote).lacks
    rw [step_name ht (begins_cons (by decide)) (begins_cons (by decide))
      (hlacks (fun c _ => by simp [Piece.arrowText]) (by decide))
      (hlacks (fun _ hc => singleton_ne_of_isWordChar hc rfl) (by decide)),
      describedBy]
    rfl
  | unresolved path unknown =>
    rw [text] at ht
    rw [step_path ht, name, if_neg (head?_path_ne path), unknown, describedBy]
    exact if_pos path.contains_or_isIdentifier
  | tuple first second rest =>
    rw [text] at ht
    exact step_tuple hparts ht
  | record fields =>
    have hfields : ∀ f ∈ fields.map fun f => Field.mk f.isMutable f.name f.type.text,
        IsPart f.text := by
      intro f hf
      obtain ⟨g, -, rfl⟩ := List.mem_map.mp hf
      exact isPart_field (isType_text g.type)
    rw [text] at ht
    rw [step_record hfields (by rw [ht, List.map_map]; rfl), describedBy, List.map_map]
    rfl
  | wrapper callee wrapperName known arg =>
    rw [text] at ht
    rw [step_applied callee hparts ht, TypeText.application, known, describedBy]
    simp [children, Description.map, Description.allWarnings]
  | application callee unknown first rest =>
    rw [text] at ht
    rw [step_applied callee hparts ht, TypeText.application, unknown, describedBy]
    rfl
  | function params result =>
    have hargs : ∀ p ∈ params.map fun p => Param.mk p.label p.type.text, IsType p.type := by
      intro p hp
      obtain ⟨q, -, rfl⟩ := List.mem_map.mp hp
      exact isType_text q.type
    rw [text] at ht
    rw [step_function hargs (by rw [ht, List.map_map]; rfl), describedBy, List.map_map]
    rfl

/-- A type is described as what it means as soon as the types in it are. -/
theorem describedBy_eq {describe : Text → Description} {tree : TypeTree}
    (hchild : ∀ child ∈ tree.children, describe child.text = child.description)
    (hblank : ∀ child ∈ tree.children, describe (' ' :: child.text) = child.description) :
    tree.describedBy describe = tree.description := by
  have hmap : (tree.children.map text).map describe = tree.children.map description := by
    rw [List.map_map]
    exact List.map_congr_left hchild
  cases tree with
  | primitive name atRunTime known => rw [describedBy, description]
  | «variable» name => rw [describedBy, description]
  | unresolved path unknown => rw [describedBy, description]
  | tuple first second rest =>
    rw [description]
    exact congrArg (fun ts => Description.mk (.tuple (Description.descriptors ts))
      (Description.allWarnings ts)) hmap
  | record fields =>
    rw [describedBy, description]
    apply congrArg describedRecord
    apply List.map_congr_left
    intro f hf
    exact congrArg (f.name.text, ·) (hblank f.type (List.mem_map_of_mem hf))
  | wrapper callee name known arg =>
    rw [describedBy, description, hchild arg (List.mem_singleton_self arg)]
  | application callee unknown first rest =>
    rw [description]
    exact congrArg (fun ts => Description.mk (.unknown (Doubt.unresolved callee.text).message)
      (Description.allWarnings ts ++ [(Doubt.unresolved callee.text).message])) hmap
  | function params result =>
    have hdescribed : (params.map fun p => describedParam describe ⟨p.label, p.type.text⟩) =
        params.map fun p => p.label.described p.type.description := by
      apply List.map_congr_left
      intro p hp
      have hp : p.type ∈ (function params result).children :=
        List.mem_append_left _ (List.mem_map_of_mem hp)
      obtain ⟨label, type⟩ := p
      cases label with
      | positional => exact hchild type hp
      | required name => exact congrArg (Label.required name).described (hblank type hp)
      | optional name => exact congrArg (Label.optional name).described (hblank type hp)
    rw [describedBy, description, hdescribed, hblank result (by simp [children])]

theorem describeWithin_of_trim {tree : TypeTree} {body : Text} {n : Nat} (hn : tree.height ≤ n)
    (ht : body.trim = tree.text) : describeWithin n body = tree.description := by
  induction n generalizing tree body with
  | zero =>
    rw [height] at hn
    exact absurd hn (Nat.not_succ_le_zero _)
  | succ n ih =>
    have hlt : ∀ child ∈ tree.children, child.height ≤ n := fun child h =>
      Nat.le_of_lt_succ (Nat.lt_of_lt_of_le (height_child_lt h) hn)
    rw [describeWithin, step_text ht]
    apply describedBy_eq
    · intro child h
      exact ih (hlt child h) (isType_text child).trim_eq
    · intro child h
      exact ih (hlt child h) ((trim_blank_cons rfl _).trans (isType_text child).trim_eq)

/-! ### Types that are too high -/

/-- The warnings for a type in another one are warnings of the other one. -/
theorem exists_warnings_subset {describe : Text → Description} {tree child : TypeTree}
    (h : child ∈ tree.children) :
    ∃ body : Text, body.trim = child.text ∧
      (describe body).warnings ⊆ (tree.describedBy describe).warnings := by
  have htrim := (isType_text child).trim_eq
  have hblank : trim (' ' :: child.text) = child.text := (trim_blank_cons rfl _).trans htrim
  have hall {ts : List Description} {t : Description} (ht : t ∈ ts) :
      t.warnings ⊆ Description.allWarnings ts :=
    fun _ hw => List.mem_flatMap.mpr ⟨t, ht, hw⟩
  cases tree with
  | primitive name atRunTime known => cases h
  | «variable» name => cases h
  | unresolved path unknown => cases h
  | tuple first second rest =>
    exact ⟨child.text, htrim, hall (List.mem_map_of_mem (List.mem_map_of_mem h))⟩
  | record fields =>
    obtain ⟨f, hf, rfl⟩ := List.mem_map.mp h
    exact ⟨_, hblank, fun _ hw => List.mem_flatMap.mpr ⟨_, List.mem_map_of_mem hf, hw⟩⟩
  | wrapper callee name known arg =>
    obtain rfl := List.mem_singleton.mp h
    exact ⟨child.text, htrim, List.Subset.refl _⟩
  | application callee unknown first rest =>
    exact ⟨child.text, htrim, List.subset_append_of_subset_left _
      (hall (List.mem_map_of_mem (List.mem_map_of_mem h)))⟩
  | function params result =>
    rcases List.mem_append.mp h with hp | hresult
    · obtain ⟨⟨label, type⟩, hparam, rfl⟩ := List.mem_map.mp hp
      have hmem : describedParam describe ⟨label, type.text⟩ ∈
          params.map fun p => describedParam describe ⟨p.label, p.type.text⟩ :=
        List.mem_map_of_mem hparam
      have hsubset := List.subset_append_of_subset_left
        (describe (' ' :: result.text)).warnings (hall hmem)
      cases label with
      | positional => exact ⟨type.text, htrim, hsubset⟩
      | required name => exact ⟨_, hblank, hsubset⟩
      | optional name => exact ⟨_, hblank, hsubset⟩
    · obtain rfl := List.mem_singleton.mp hresult
      exact ⟨_, hblank, List.subset_append_right _ _⟩

/-- A type that is described without warnings is not too high. -/
theorem height_le_of_warnings_eq_nil {tree : TypeTree} {body : Text} {n : Nat}
    (ht : body.trim = tree.text) (h : (describeWithin n body).warnings = []) :
    tree.height ≤ n := by
  induction n generalizing tree body with
  | zero => cases h
  | succ n ih =>
    rw [describeWithin, step_text ht] at h
    apply height_le_succ_iff.mpr
    intro child hchild
    obtain ⟨part, hpart, hwarnings⟩ := @exists_warnings_subset (describeWithin n) _ _ hchild
    rw [h] at hwarnings
    exact ih hpart (List.subset_nil.mp hwarnings)

/-- Every type of the grammar that is not too high is described as what it means. -/
theorem describe_text (tree : TypeTree) (h : tree.height ≤ maxHeight) :
    TypeText.describe tree.text = tree.description :=
  describeWithin_of_trim h (isType_text tree).trim_eq

/-- An optional parameter whose type is a variable, and a wrapper as the result. -/
theorem describe_optional_variable :
    ∃ tree : TypeTree, tree.height ≤ maxHeight ∧
      tree.text = "(~key: 'a=?) => array<int>".toList ∧
      TypeText.describe tree.text =
        ⟨.function [.wrapper "Option".toList
            [.unknown "type variable 'a treated as unknown".toList]]
            (.wrapper "Array".toList [.primitive "number".toList]),
          ["type variable 'a treated as unknown".toList]⟩ := by
  let tree : TypeTree :=
    .function [⟨.optional ⟨"key".toList, by decide⟩, .variable ⟨['a'], by decide⟩⟩]
      (.wrapper ⟨⟨"array".toList, by decide⟩, []⟩ Descriptor.arrayName (by decide)
        (.primitive ⟨"int".toList, by decide⟩ "number".toList (by decide)))
  have hheight : tree.height ≤ 3 := by simp [tree, height_le_succ_iff, children]
  have hmax : tree.height ≤ maxHeight := Nat.le_trans hheight (by decide)
  refine ⟨tree, hmax, ?_, (describe_text tree hmax).trans ?_⟩
  · simp only [tree, text, Param.text, applied, NamePath.text, enclosed, List.map]
    rfl
  · simp only [tree, description, Label.described, List.map]
    rfl

end TypeTree

end ForeignBindings
