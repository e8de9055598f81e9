import ForeignBindings.Nesting.Piece

/-! Depths along pieces.  Depths add, so balanced pieces can be read at any depth: they come back to
it, and inside a bracket they never reach the top level.  Pieces that lack a separator at the top
level stay whole when a text is cut at it. -/

namespace ForeignBindings

namespace Depth

def add (d e : Depth) : Depth :=
  ⟨d.round + e.round, d.angle + e.angle, d.curly + e.curly, d.square + e.square⟩

def through (d : Depth) (ps : List Piece) : Depth := ps.foldl Piece.feed d

@[simp] theorem zero_add (d : Depth) : zero.add d = d := by simp [add, zero]

@[simp] theorem through_nil (d : Depth) : d.through [] = d := rfl

@[simp] theorem through_cons (d : Depth) (p : Piece) (ps : List Piece) :
    d.through (p :: ps) = (p.feed d).through ps := rfl

theorem through_append (d : Depth) (ps qs : List Piece) :
    d.through (ps ++ qs) = (d.through ps).through qs :=
  List.foldl_append

theorem atTop_iff {d : Depth} : d.atTop = true ↔ d = zero := by
  cases d
  simp [atTop, zero, and_assoc]

theorem underflowed_eq_false_iff {d : Depth} :
    d.underflowed = false ↔ 0 ≤ d.round ∧ 0 ≤ d.angle ∧ 0 ≤ d.curly ∧ 0 ≤ d.square := by
  simp [underflowed, and_assoc]

@[simp] theorem zero_atTop : zero.atTop = true := rfl

@[simp] theorem zero_underflowed : zero.underflowed = false := rfl

theorem underflowed_add {d e : Depth} (hd : d.underflowed = false) (he : e.underflowed = false) :
    (d.add e).underflowed = false := by
  rw [underflowed_eq_false_iff] at *
  simp only [add]
  omega

theorem atTop_add {d e : Depth} (hd : d.underflowed = false) (he : e.underflowed = false)
    (h : e.atTop = false) : (d.add e).atTop = false := by
  rw [underflowed_eq_false_iff] at hd he
  rw [Bool.eq_false_iff] at h ⊢
  intro htop
  apply h
  simp only [atTop, add, Bool.and_eq_true, beq_iff_eq] at htop ⊢
  omega

theorem step_add (d e : Depth) (b : Bracket) : (d.add e).step b = (d.step b).add e := by
  obtain ⟨shape, opens⟩ := b
  cases shape <;> simp only [step, add, Depth.mk.injEq, true_and, and_true] <;> omega

theorem count_step (d : Depth) (b : Bracket) (shape : Shape) :
    (d.step b).count shape =
      d.count shape + if b.shape = shape then (if b.opens then 1 else -1) else 0 := by
  obtain ⟨bracketShape, opens⟩ := b
  cases bracketShape <;> cases shape <;> simp [Depth.step, Depth.count]

theorem feed_add (d e : Depth) (p : Piece) : p.feed (d.add e) = (p.feed d).add e := by
  cases p with
  | literal text => rfl
  | arrow => rfl
  | plain c =>
    simp only [Piece.feed, feed]
    cases bracket? c with
    | none => rfl
    | some b => exact step_add d e b

theorem through_add (d e : Depth) (ps : List Piece) :
    (d.add e).through ps = (d.through ps).add e := by
  induction ps generalizing d with
  | nil => rfl
  | cons p ps ih => rw [through_cons, through_cons, feed_add, ih]

end Depth

open Depth

/-! ### Balanced pieces -/

theorem balancedFrom_cons {d : Depth} {p : Piece} {ps : List Piece} :
    balancedFrom d (p :: ps) = true ↔
      (p.feed d).underflowed = false ∧ balancedFrom (p.feed d) ps = true := by
  simp [balancedFrom]

theorem through_of_balancedFrom {d : Depth} {ps : List Piece} (h : balancedFrom d ps = true) :
    d.through ps = zero := by
  induction ps generalizing d with
  | nil => exact atTop_iff.mp h
  | cons p ps ih => exact ih (balancedFrom_cons.mp h).2

theorem through_of_balanced {ps : List Piece} (h : balancedFrom zero ps = true) (d : Depth) :
    d.through ps = d := by
  have hadd := through_add zero d ps
  rwa [zero_add, through_of_balancedFrom h, zero_add] at hadd

/-- Balanced pieces can be dropped before others, at every depth without an underflow. -/
theorem balancedFrom_append {d e : Depth} {ps : List Piece} (h : balancedFrom d ps = true)
    (he : e.underflowed = false) (qs : List Piece) :
    balancedFrom (d.add e) (ps ++ qs) = balancedFrom e qs := by
  induction ps generalizing d with
  | nil =>
    rw [atTop_iff.mp h, zero_add]
    rfl
  | cons p ps ih =>
    obtain ⟨hp, hps⟩ := balancedFrom_cons.mp h
    rw [List.cons_append, balancedFrom, feed_add, underflowed_add hp he, ih hps]
    rfl

theorem balanced_append {ps qs : List Piece} (hp : balancedFrom zero ps = true)
    (hq : balancedFrom zero qs = true) : balancedFrom zero (ps ++ qs) = true := by
  have happ := balancedFrom_append hp zero_underflowed qs
  rw [zero_add] at happ
  rw [happ, hq]

/-! ### Pieces without a separator -/

/-- No piece at the top level is the separator; `d` is the depth before the pieces. -/
def Lacks (separator : Text) (d : Depth) : List Piece → Prop
  | [] => True
  | p :: ps =>
    ¬(d.atTop = true ∧ p.separator? = some separator) ∧ Lacks separator (p.feed d) ps

theorem lacks_append {separator : Text} {d : Depth} {ps qs : List Piece} :
    Lacks separator d (ps ++ qs) ↔
      Lacks separator d ps ∧ Lacks separator (d.through ps) qs := by
  induction ps generalizing d with
  | nil => simp [Lacks]
  | cons p ps ih => simp [Lacks, ih, and_assoc]

theorem lacks_of_forall_ne {separator : Text} {d : Depth} {ps : List Piece}
    (h : ∀ p ∈ ps, p.separator? ≠ some separator) : Lacks separator d ps := by
  induction ps generalizing d with
  | nil => trivial
  | cons p ps ih =>
    rw [List.forall_mem_cons] at h
    exact ⟨fun hsep => h.1 hsep.2, ih h.2⟩

/-- The first occurrence of a separator at the top level. -/
theorem exists_of_not_lacks {separator : Text} {d : Depth} {ps : List Piece}
    (h : ¬Lacks separator d ps) :
    ∃ front p rest, ps = front ++ p :: rest ∧ Lacks separator d front ∧
      (d.through front).atTop = true ∧ p.separator? = some separator := by
  induction ps generalizing d with
  | nil => exact absurd trivial h
  | cons p ps ih =>
    by_cases hsep : d.atTop = true ∧ p.separator? = some separator
    · exact ⟨[], p, ps, rfl, trivial, hsep⟩
    · have hrest : ¬Lacks separator (p.feed d) ps := fun hlacks => h ⟨hsep, hlacks⟩
      obtain ⟨front, q, rest, rfl, hlacks, hfound⟩ := ih hrest
      exact ⟨p :: front, q, rest, rfl, ⟨hsep, hlacks⟩, hfound⟩

/-- Inside a bracket, balanced pieces lack every separator. -/
theorem lacks_inside {separator : Text} {d e : Depth} {ps : List Piece}
    (h : balancedFrom d ps = true) (hd : d.underflowed = false) (he : e.underflowed = false)
    (htop : e.atTop = false) : Lacks separator (d.add e) ps := by
  induction ps generalizing d with
  | nil => trivial
  | cons p ps ih =>
    obtain ⟨hp, hps⟩ := balancedFrom_cons.mp h
    constructor
    · intro hsep
      rw [atTop_add hd he htop] at hsep
      exact absurd hsep.1 Bool.false_ne_true
    · rw [feed_add]
      exact ih hps hp

/-- A pair of brackets of one shape, by its characters. -/
structure Pair (opening closing : Char) where
  shape : Shape
  bracket_opening : bracket? opening = some ⟨shape, true⟩
  bracket_closing : bracket? closing = some ⟨shape, false⟩

namespace Pair

def round : Pair '(' ')' := ⟨.round, rfl, rfl⟩

def angle : Pair '<' '>' := ⟨.angle, rfl, rfl⟩

def curly : Pair '\x7b' '\x7d' := ⟨.curly, rfl, rfl⟩

variable {opening closing : Char} (pair : Pair opening closing)
include pair

def depth : Depth := zero.step ⟨pair.shape, true⟩

theorem feed_opening : Piece.feed zero (.plain opening) = pair.depth := by
  simp only [Piece.feed, Depth.feed, pair.bracket_opening, depth]

theorem feed_closing : Piece.feed pair.depth (.plain closing) = zero := by
  simp only [Piece.feed, Depth.feed, pair.bracket_closing, depth]
  cases pair.shape <;> rfl

theorem depth_underflowed : pair.depth.underflowed = false := by
  unfold depth
  cases pair.shape <;> rfl

theorem depth_atTop : pair.depth.atTop = false := by
  unfold depth
  cases pair.shape <;> rfl

theorem feed_closing_underflowed : (Piece.feed zero (.plain closing)).underflowed = true := by
  simp only [Piece.feed, Depth.feed, pair.bracket_closing]
  cases pair.shape <;> rfl

theorem balancedFrom_enclosed {ps : List Piece} (h : balancedFrom zero ps = true)
    (qs : List Piece) :
    balancedFrom zero (.plain opening :: (ps ++ .plain closing :: qs)) =
      balancedFrom zero qs := by
  have happ := balancedFrom_append h pair.depth_underflowed (.plain closing :: qs)
  rw [zero_add] at happ
  rw [balancedFrom, pair.feed_opening, pair.depth_underflowed, happ, balancedFrom,
    pair.feed_closing]
  rfl

theorem balancedFrom_closing {ps : List Piece} (h : balancedFrom zero ps = true)
    (qs : List Piece) : balancedFrom zero (ps ++ .plain closing :: qs) = false := by
  have happ := balancedFrom_append h zero_underflowed (.plain closing :: qs)
  rw [zero_add] at happ
  rw [happ, balancedFrom, pair.feed_closing_underflowed]
  rfl

/-- What stands in a pair of brackets lacks every separator but the opening bracket. -/
theorem lacks_enclosed {ps qs : List Piece} {separator : Text} (h : balancedFrom zero ps = true)
    (hne : separator ≠ [opening]) (hqs : Lacks separator zero qs) :
    Lacks separator zero (.plain opening :: (ps ++ .plain closing :: qs)) := by
  constructor
  · intro hsep
    exact hne (by simpa [Piece.separator?] using hsep.2.symm)
  rw [pair.feed_opening, lacks_append, through_of_balanced h]
  refine ⟨?_, ?_, ?_⟩
  · have hin : Lacks separator (zero.add pair.depth) ps :=
      lacks_inside h zero_underflowed pair.depth_underflowed pair.depth_atTop
    rwa [zero_add] at hin
  · rw [pair.depth_atTop]
    simp
  · rwa [pair.feed_closing]

end Pair

/-! ### Cutting and finding -/

def Piece.textOf (ps : List Piece) : Text := ps.flatMap Piece.text

theorem Piece.textOf_cons (p : Piece) (ps : List Piece) :
    Piece.textOf (p :: ps) = p.text ++ Piece.textOf ps := rfl

theorem Piece.textOf_append (ps qs : List Piece) :
    Piece.textOf (ps ++ qs) = Piece.textOf ps ++ Piece.textOf qs :=
  List.flatMap_append

theorem cutFrom_ne_nil (separator : Text) (d : Depth) (ps : List Piece) :
    cutFrom separator d ps ≠ [] := by
  cases ps with
  | nil => simp [cutFrom]
  | cons p ps =>
    rw [cutFrom]
    split
    · simp
    · split <;> simp

/-- Pieces that lack the separator join the first part of what follows them. -/
theorem cutFrom_append_of_lacks {separator : Text} {d : Depth} {ps : List Piece}
    (h : Lacks separator d ps) (qs : List Piece) :
    cutFrom separator d (ps ++ qs) =
      (cutFrom separator (d.through ps) qs).modifyHead (Piece.textOf ps ++ ·) := by
  induction ps generalizing d with
  | nil =>
    cases hcut : cutFrom separator d qs with
    | nil => exact absurd hcut (cutFrom_ne_nil _ _ _)
    | cons part more => simp [hcut, Piece.textOf]
  | cons p ps ih =>
    obtain ⟨hp, hps⟩ := h
    rw [List.cons_append, cutFrom, if_neg hp, ih hps, through_cons]
    cases hcut : cutFrom separator ((p.feed d).through ps) qs with
    | nil => exact absurd hcut (cutFrom_ne_nil _ _ _)
    | cons part more => simp [Piece.textOf]

/-- Whatever stands after the pieces, they are cut the same way, and their last part is joined with
the first part of what follows. -/
theorem exists_cutFrom_append (separator : Text) (d : Depth) (ps : List Piece) :
    ∃ front last, ∀ qs, cutFrom separator d (ps ++ qs) =
      front ++ (cutFrom separator (d.through ps) qs).modifyHead (last ++ ·) := by
  induction ps generalizing d with
  | nil =>
    refine ⟨[], [], fun qs => ?_⟩
    cases hcut : cutFrom separator d qs with
    | nil => exact absurd hcut (cutFrom_ne_nil _ _ _)
    | cons part more => simp [hcut]
  | cons p ps ih =>
    obtain ⟨front, last, hcut⟩ := ih (p.feed d)
    by_cases hsep : d.atTop = true ∧ p.separator? = some separator
    · refine ⟨[] :: front, last, fun qs => ?_⟩
      rw [List.cons_append, cutFrom, if_pos hsep, hcut, through_cons, List.cons_append]
    · cases front with
      | nil =>
        refine ⟨[], p.text ++ last, fun qs => ?_⟩
        rw [List.cons_append, cutFrom, if_neg hsep, hcut, through_cons]
        cases hrest : cutFrom separator ((p.feed d).through ps) qs with
        | nil => exact absurd hrest (cutFrom_ne_nil _ _ _)
        | cons part more => simp
      | cons first front =>
        refine ⟨(p.text ++ first) :: front, last, fun qs => ?_⟩
        rw [List.cons_append, cutFrom, if_neg hsep, hcut, through_cons]
        rfl

theorem cutFrom_of_lacks {separator : Text} {d : Depth} {ps : List Piece}
    (h : Lacks separator d ps) : cutFrom separator d ps = [Piece.textOf ps] := by
  have happ := cutFrom_append_of_lacks h []
  simpa [cutFrom] using happ

theorem cutFrom_separator {separator : Text} {d : Depth} {p : Piece} (htop : d.atTop = true)
    (hsep : p.separator? = some separator) (qs : List Piece) :
    cutFrom separator d (p :: qs) = [] :: cutFrom separator (p.feed d) qs := by
  rw [cutFrom, if_pos ⟨htop, hsep⟩]

theorem topLevelFrom_append (index : Nat) (d : Depth) (ps qs : List Piece) :
    topLevelFrom index d (ps ++ qs) = topLevelFrom index d ps ++
      topLevelFrom (index + (Piece.textOf ps).length) (d.through ps) qs := by
  induction ps generalizing index d with
  | nil => simp [topLevelFrom, Piece.textOf]
  | cons p ps ih =>
    simp only [List.cons_append, topLevelFrom, ih, through_cons, Piece.textOf,
      List.flatMap_cons, List.length_append, Nat.add_assoc]
    cases p.separator? with
    | none => rfl
    | some lexeme => by_cases htop : d.atTop = true <;> simp [htop]

theorem mem_topLevelFrom_cons {index offset : Nat} {d : Depth} {p : Piece} {ps : List Piece}
    {lexeme : Text} :
    (offset, lexeme) ∈ topLevelFrom index d (p :: ps) ↔
      p.separator? = some lexeme ∧ offset = index ∧ d.atTop = true ∨
        (offset, lexeme) ∈ topLevelFrom (index + p.text.length) (p.feed d) ps := by
  rw [topLevelFrom]
  cases hsep : p.separator? with
  | none => simp
  | some found =>
    by_cases htop : d.atTop = true
    · simp [htop, and_comm, eq_comm]
    · simp [htop]

theorem le_of_mem_topLevelFrom {index : Nat} {d : Depth} {ps : List Piece} {place : Nat × Text}
    (h : place ∈ topLevelFrom index d ps) : index ≤ place.1 := by
  obtain ⟨offset, lexeme⟩ := place
  induction ps generalizing index d with
  | nil => simp [topLevelFrom] at h
  | cons p ps ih =>
    rcases mem_topLevelFrom_cons.mp h with ⟨-, rfl, -⟩ | h
    · exact Nat.le_refl _
    · exact Nat.le_trans (Nat.le_add_right _ _) (ih h)

/-- Pieces lack a separator exactly if it is not at the top level among them. -/
theorem lacks_iff {separator : Text} {d : Depth} {ps : List Piece} (index : Nat) :
    Lacks separator d ps ↔ ∀ offset, (offset, separator) ∉ topLevelFrom index d ps := by
  induction ps generalizing index d with
  | nil => simp [Lacks, topLevelFrom]
  | cons p ps ih =>
    simp only [Lacks, mem_topLevelFrom_cons, not_or, ih (index + p.text.length), forall_and]
    apply and_congr_left
    intro _
    constructor
    · intro h offset hsep
      exact h ⟨hsep.2.2, hsep.1⟩
    · intro h hsep
      exact h index ⟨hsep.2, rfl, hsep.1⟩

theorem find?_topLevelFrom_eq_none_iff {separator : Text} {d : Depth} {ps : List Piece}
    {index : Nat} :
    (topLevelFrom index d ps).find? (fun place => place.2 == separator) = none ↔
      Lacks separator d ps := by
  rw [List.find?_eq_none, lacks_iff index]
  constructor
  · intro h offset hmem
    exact h _ hmem (by simp)
  · rintro h ⟨offset, lexeme⟩ hmem hlexeme
    obtain rfl : lexeme = separator := by simpa using hlexeme
    exact h offset hmem

end ForeignBindings
