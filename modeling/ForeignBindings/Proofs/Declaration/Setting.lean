import Mathlib.Data.List.Perm.Basic
import ForeignBindings.Declaration.Attributes
import ForeignBindings.Proofs.Nesting.Quoted
import ForeignBindings.Proofs.Token.Stream

/-! Annotations as they are written.  An annotation is a name, and strings as its arguments; the
lexer makes one attribute of it, whatever the strings hold.  The annotations that attributes are
written as give the attributes back in every order. -/

namespace ForeignBindings

open Text

/-! ### Annotations -/

inductive Flag
  | val
  | send
  | new
  | get
  | set
  deriving DecidableEq

namespace Flag

def all : List Flag := [val, send, new, get, set]

def name : Flag → Text
  | .val => "val".toList
  | .send => "send".toList
  | .new => "new".toList
  | .get => "get".toList
  | .set => "set".toList

end Flag

/-- What one annotation says. -/
inductive Setting
  | importPath (path : Text)
  | scope (path : List Text)
  | rename (name : Text)
  | flag (flag : Flag)
  deriving DecidableEq

namespace Setting

def name : Setting → Text
  | .importPath _ => "module".toList
  | .scope _ => "scope".toList
  | .rename _ => "as".toList
  | .flag f => f.name

/-- The strings in the argument list, if there is one. -/
def strings : Setting → Option (List Text)
  | .importPath path => some [path]
  | .scope path => some path
  | .rename name => some [name]
  | .flag _ => none

def decorator (a : Setting) : Decorator := ⟨a.name, a.strings.map (·.map stringLiteral)⟩

/-- The argument list as it is written. -/
def arguments (a : Setting) : Text :=
  match a.strings with
  | some strings => enclosed '(' ')' (join commaBlank (strings.map stringLiteral))
  | none => []

/-- The annotation as it is written. -/
def text (a : Setting) : Text := '@' :: (a.name ++ a.arguments)

/-- The strings of the annotation can stand between double quotes. -/
def Writable (a : Setting) : Prop := ∀ strings ∈ a.strings, ∀ s ∈ strings, Quotable s

instance : DecidablePred Writable := fun a =>
  inferInstanceAs (Decidable (∀ strings ∈ a.strings, ∀ s ∈ strings, Quotable s))

theorem name_start (a : Setting) : a.name.head?.any isIdentifierStart = true := by
  cases a with
  | flag f => cases f <;> rfl
  | _ => rfl

theorem name_chars (a : Setting) : a.name.all isIdentifierChar = true := by
  cases a with
  | flag f => cases f <;> rfl
  | _ => rfl

end Setting

theorem isPart_strings {strings : List Text} (h : ∀ s ∈ strings, Quotable s) :
    ∀ part ∈ strings.map stringLiteral, IsPart part := by
  intro part hpart
  obtain ⟨s, hs, rfl⟩ := List.mem_map.mp hpart
  exact isPart_stringLiteral (h s hs)

/-! ### Reading -/

namespace Lexer

theorem any_head?_append {name : Text} {p : Char → Bool} (h : name.head?.any p = true)
    (more : Text) : (name ++ more).head?.any p = true := by
  cases name with
  | nil => simp at h
  | cons c name => exact h

theorem dottedNameLength_append {name more : Text} (hname : name.all isIdentifierChar = true)
    (hmore : ∀ c ∈ more.head?, isIdentifierChar c = false ∧ c ≠ '.') :
    dottedNameLength (name ++ more) = name.length := by
  induction name with
  | nil =>
    cases more with
    | nil => rfl
    | cons c more =>
      obtain ⟨hc, hdot⟩ := hmore c rfl
      simp [dottedNameLength, hc, hdot]
  | cons c name ih =>
    rw [List.all_cons, Bool.and_eq_true] at hname
    rw [List.cons_append, dottedNameLength, hname.1, Bool.true_or, if_pos rfl, ih hname.2,
      List.length_cons]

theorem shape_ne_round {c : Char} {b : Bracket} (h : bracket? c = some b) (hopen : c ≠ '(')
    (hclose : c ≠ ')') : b.shape ≠ .round := by
  rw [bracket?, if_neg hopen, if_neg hclose] at h
  repeat' split at h
  all_goals cases h
  all_goals decide

theorem round_feed {p : Piece} (hopen : p ≠ .plain '(') (hclose : p ≠ .plain ')') (d : Depth) :
    (p.feed d).round = d.round := by
  cases p with
  | literal text => rfl
  | arrow => rfl
  | plain c =>
    rw [Piece.feed, Depth.feed]
    split
    · rename_i b hb
      have hshape := shape_ne_round hb (fun h => hopen (congrArg _ h)) fun h => hclose (congrArg _ h)
      have hcount := Depth.count_step d b .round
      rwa [if_neg hshape, Int.add_zero] at hcount
    · rfl

theorem argumentsLength?_opening (depth : Nat) (ps : List Piece) :
    argumentsLength? depth (.plain '(' :: ps) = (argumentsLength? (depth + 1) ps).map (· + 1) := by
  rw [argumentsLength?.eq_def]
  exact if_pos rfl

theorem argumentsLength?_closing (depth : Nat) (ps : List Piece) :
    argumentsLength? (depth + 1) (.plain ')' :: ps) = (argumentsLength? depth ps).map (· + 1) := by
  rw [argumentsLength?, if_neg (by decide), if_pos rfl]

theorem argumentsLength?_other {p : Piece} (hopen : p ≠ .plain '(') (hclose : p ≠ .plain ')')
    (depth : Nat) (ps : List Piece) :
    argumentsLength? depth (p :: ps) = (argumentsLength? depth ps).map (· + p.text.length) := by
  rw [argumentsLength?.eq_def]
  exact (if_neg hopen).trans (if_neg hclose)

/-- Balanced pieces are read through to what follows them: at the depth `d` in them, the parentheses
that it counts are open besides `depth` others. -/
theorem argumentsLength?_balanced {d : Depth} {ps : List Piece} (h : balancedFrom d ps = true)
    (hd : d.underflowed = false) (depth : Nat) (qs : List Piece) :
    argumentsLength? (depth + d.round.toNat) (ps ++ qs) =
      (argumentsLength? depth qs).map (· + (Piece.textOf ps).length) := by
  induction ps generalizing d with
  | nil =>
    rw [Depth.atTop_iff.mp h]
    simp [Piece.textOf, Depth.zero]
  | cons p ps ih =>
    obtain ⟨hp, hps⟩ := balancedFrom_cons.mp h
    have hround := (Depth.underflowed_eq_false_iff.mp hd).1
    have hround' := (Depth.underflowed_eq_false_iff.mp hp).1
    have hlength : (fun n : Nat => n + (Piece.textOf (p :: ps)).length) =
        (· + p.text.length) ∘ (· + (Piece.textOf ps).length) := by
      funext n
      simp only [Piece.textOf_cons, List.length_append, Function.comp_apply]
      omega
    rw [List.cons_append, hlength, ← Option.map_map, ← ih hps hp]
    by_cases hopen : p = .plain '('
    · subst hopen
      have hfeed : (Piece.feed d (.plain '(')).round = d.round + 1 := rfl
      rw [argumentsLength?_opening, hfeed,
        show depth + d.round.toNat + 1 = depth + (d.round + 1).toNat by omega]
      rfl
    by_cases hclose : p = .plain ')'
    · subst hclose
      have hfeed : (Piece.feed d (.plain ')')).round = d.round - 1 := rfl
      rw [hfeed] at hround' ⊢
      rw [show depth + d.round.toNat = depth + (d.round - 1).toNat + 1 by omega,
        argumentsLength?_closing]
      rfl
    · rw [argumentsLength?_other hopen hclose, round_feed hopen hclose]

theorem argumentsLength?_append {ps : List Piece} (h : balancedFrom .zero ps = true)
    (rest : List Piece) :
    argumentsLength? 0 (ps ++ .plain ')' :: rest) = some (Piece.textOf ps).length := by
  have hclosing : argumentsLength? 0 (.plain ')' :: rest) = some 0 := by
    rw [argumentsLength?, if_neg (by decide), if_pos rfl]
  calc argumentsLength? 0 (ps ++ .plain ')' :: rest)
    _ = (argumentsLength? 0 (.plain ')' :: rest)).map (· + (Piece.textOf ps).length) :=
      argumentsLength?_balanced h Depth.zero_underflowed 0 _
    _ = some (Piece.textOf ps).length := by rw [hclosing, Option.map_some, Nat.zero_add]

theorem attribute?_bare {name gap more : Text} (hstart : name.head?.any isIdentifierStart = true)
    (hname : name.all isIdentifierChar = true) (hgap : gap ≠ [])
    (hblank : ∀ c ∈ gap, isBlank c = true)
    (hmore : more.Begins fun c => isBlank c = false ∧ c ≠ '(') :
    attribute? (name ++ (gap ++ more)) = some (⟨name, none⟩, name.length) := by
  obtain ⟨d, more, rfl, hd, hparen⟩ := hmore.cons_eq
  have hhead := any_head?_append hstart (gap ++ d :: more)
  have hlength : dottedNameLength (name ++ (gap ++ d :: more)) = name.length := by
    obtain ⟨c, gap, rfl⟩ := List.exists_cons_of_ne_nil hgap
    have hc := hblank c List.mem_cons_self
    apply dottedNameLength_append hname
    rintro _ ⟨⟩
    constructor
    · rw [Bool.eq_false_iff]
      intro hchar
      exact absurd hc (by simp [show isBlank c = false from solid_of_isIdentifierChar hchar])
    · rintro rfl
      exact absurd hc (by decide)
  have hblanks : (gap ++ d :: more).takeWhile isBlank = gap :=
    takeWhile_append hblank (by simpa using hd)
  unfold attribute?
  simp only [hhead, if_true, hlength, List.drop_left, List.take_left, hblanks,
    List.drop_length_add_append]
  split
  · rename_i inside heq
    exact absurd (List.cons.inj heq).1 hparen
  · rfl

/-- Whatever the parts of an argument list hold, they are the arguments. -/
theorem attribute?_parts {name : Text} {parts : List Text}
    (hstart : name.head?.any isIdentifierStart = true)
    (hname : name.all isIdentifierChar = true) (h : ∀ part ∈ parts, IsPart part) (more : Text) :
    attribute? (name ++ enclosed '(' ')' (join commaBlank parts) ++ more) =
      some (⟨name, some parts⟩, (name ++ enclosed '(' ')' (join commaBlank parts)).length) := by
  have hsplit := splitTop_join h
  have hpieces := standalone_join h (')' :: more) (by simp)
  have hclosed := argumentsLength?_append (isBalanced_join h) (pieces more)
  rw [pieces_inert ⟨rfl, by decide⟩] at hpieces
  rw [← hpieces, textOf_pieces] at hclosed
  generalize join commaBlank parts = inside at hsplit hclosed ⊢
  have htext :
      name ++ enclosed '(' ')' inside ++ more = name ++ '(' :: (inside ++ ')' :: more) := by
    simp [enclosed]
  have hhead := any_head?_append hstart ('(' :: (inside ++ ')' :: more))
  have hlength : dottedNameLength (name ++ ('(' :: (inside ++ ')' :: more))) = name.length := by
    apply dottedNameLength_append hname
    rintro _ ⟨⟩
    decide
  have hblanks : ('(' :: (inside ++ ')' :: more)).takeWhile isBlank = [] :=
    List.takeWhile_cons_of_neg (by decide)
  rw [htext]
  unfold attribute?
  simp only [hhead, if_true, hlength, List.drop_left, List.take_left, hblanks, List.length_nil,
    Nat.add_zero, hclosed, Option.map_some, hsplit, enclosed]
  simp
  omega

theorem read_attribute {rest : Text} {decorator : Decorator} {n : Nat}
    (h : attribute? rest = some (decorator, n)) : read '@' rest = (.attribute decorator, n) := by
  rw [read, if_neg fun h => absurd h.1 (by decide), if_neg fun h => absurd h.1 (by decide),
    if_pos rfl, h]

variable {a : Setting} {gap more : Text}

theorem read_setting (ha : a.Writable) (hgap : gap ≠ [])
    (hblank : ∀ c ∈ gap, isBlank c = true)
    (hmore : more.Begins fun c => isBlank c = false ∧ c ≠ '(') :
    read '@' (a.name ++ a.arguments ++ (gap ++ more)) =
      (.attribute a.decorator, (a.name ++ a.arguments).length) := by
  apply read_attribute
  rw [Setting.arguments, Setting.decorator]
  cases hstrings : a.strings with
  | none =>
    simp only [List.append_nil, Option.map_none]
    exact attribute?_bare a.name_start a.name_chars hgap hblank hmore
  | some strings =>
    exact attribute?_parts a.name_start a.name_chars (isPart_strings (ha strings hstrings)) _

/-- An annotation before blanks and before what is no argument list is read as its attribute. -/
theorem tokensFrom_setting (ha : a.Writable) (hgap : gap ≠ [])
    (hblank : ∀ c ∈ gap, isBlank c = true)
    (hmore : more.Begins fun c => isBlank c = false ∧ c ≠ '(') (leading : Text) (p : Position) :
    tokensFrom leading p (a.text ++ (gap ++ more)) =
      ⟨.attribute a.decorator, leading, a.text, p⟩ ::
        tokensFrom gap ((p.advance a.text).advance gap) more := by
  have htoken := tokensFrom_token (by decide) (read_setting ha hgap hblank hmore) leading p
  rw [Setting.text, htoken, tokensFrom_blanks hblank]
  rfl

end Lexer

/-! ### What annotations say -/

namespace Attributes

/-- The attributes after an annotation. -/
def put (attributes : Attributes) : Setting → Attributes
  | .importPath path => { attributes with importPath := some path }
  | .scope path => { attributes with scope := some path }
  | .rename name => { attributes with rename := some name }
  | .flag .val => { attributes with val := true }
  | .flag .send => { attributes with send := true }
  | .flag .new => { attributes with new := true }
  | .flag .get => { attributes with get := true }
  | .flag .set => { attributes with set := true }

def has (attributes : Attributes) : Flag → Bool
  | .val => attributes.val
  | .send => attributes.send
  | .new => attributes.new
  | .get => attributes.get
  | .set => attributes.set

/-- One annotation for everything that is set. -/
def settings (attributes : Attributes) : List Setting :=
  (attributes.importPath.map .importPath).toList ++ (attributes.scope.map .scope).toList ++
    (attributes.rename.map .rename).toList ++ (Flag.all.filter attributes.has).map .flag

theorem scopePath_stringLiteral (path : List Text) : scopePath (path.map stringLiteral) = path := by
  have hsegments := map_unquote_stringLiteral path
  cases path with
  | nil => rfl
  | cons segment path =>
    cases path with
    | nil => exact hsegments
    | cons next path => exact hsegments

theorem apply_decorator (attributes : Attributes) (a : Setting) :
    attributes.apply a.decorator = attributes.put a := by
  cases a with
  | importPath path =>
    show { attributes with importPath := some (unquote (stringLiteral path)) } = _
    rw [unquote_stringLiteral]
    rfl
  | scope path =>
    show { attributes with scope := some (scopePath (path.map stringLiteral)) } = _
    rw [scopePath_stringLiteral]
    rfl
  | rename name =>
    show { attributes with rename := some (unquote (stringLiteral name)) } = _
    rw [unquote_stringLiteral]
    rfl
  | flag f => cases f <;> rfl

theorem foldl_put_settings (attributes : Attributes) :
    attributes.settings.foldl put .empty = attributes := by
  obtain ⟨importPath, scope, val, send, new, get, set, rename⟩ := attributes
  cases importPath <;> cases scope <;> cases rename <;> cases val <;> cases send <;> cases new <;>
    cases get <;> cases set <;> rfl

theorem mem_settings {attributes : Attributes} {a : Setting}
    (h : a ∈ attributes.settings) : match a with
      | .importPath path => attributes.importPath = some path
      | .scope path => attributes.scope = some path
      | .rename name => attributes.rename = some name
      | .flag f => attributes.has f = true := by
  cases a with
  | flag f =>
    have hf : f ∈ Flag.all ∧ attributes.has f = true := by simpa [settings] using h
    exact hf.2
  | _ => simpa [settings] using h

/-- Two annotations of the same attributes set different fields, or are the same. -/
theorem put_comm {attributes : Attributes} {a b : Setting} (ha : a ∈ attributes.settings)
    (hb : b ∈ attributes.settings) (c : Attributes) : (c.put a).put b = (c.put b).put a := by
  have ha := mem_settings ha
  have hb := mem_settings hb
  cases a with
  | importPath path =>
    cases b with
    | importPath path' => rw [Option.some.inj (ha.symm.trans hb)]
    | scope _ | rename _ => rfl
    | flag f => cases f <;> rfl
  | scope path =>
    cases b with
    | scope path' => rw [Option.some.inj (ha.symm.trans hb)]
    | importPath _ | rename _ => rfl
    | flag f => cases f <;> rfl
  | rename name =>
    cases b with
    | rename name' => rw [Option.some.inj (ha.symm.trans hb)]
    | importPath _ | scope _ => rfl
    | flag f => cases f <;> rfl
  | flag f =>
    cases b with
    | flag g => cases f <;> cases g <;> rfl
    | _ => cases f <;> rfl

/-- The annotations of attributes give them back in every order. -/
theorem foldl_put_perm {attributes : Attributes} {written : List Setting}
    (h : written.Perm attributes.settings) : written.foldl put .empty = attributes := by
  have hcomm : ∀ a ∈ written, ∀ b ∈ written, ∀ c : Attributes,
      (c.put a).put b = (c.put b).put a := fun a ha b hb c =>
    put_comm (h.subset ha) (h.subset hb) c
  rw [h.foldl_eq' hcomm, foldl_put_settings]

end Attributes

end ForeignBindings
