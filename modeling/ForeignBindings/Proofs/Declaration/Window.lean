import ForeignBindings.Proofs.Declaration.Written
import ForeignBindings.Proofs.Token.Covering

/-! The windows of a scan.  Each declaration comes from a window of the tokens: the keyword, a name,
a colon, a type, the first equals sign outside all brackets, and a binding, one behind the other
with nothing but comments between them.  The text of its type is the part of the source between the
colon and the equals sign, with a blank for each comment; and the windows of the declarations stand
in the source in the order of the declarations, one behind the other. -/

namespace ForeignBindings

/-! ### Brackets -/

/-- How many more brackets of a shape open than close among tokens. -/
def excess (shape : Shape) (tokens : List Token) : Int :=
  tokens.countP (fun t => t.lexeme == .bracket ⟨shape, true⟩) -
    tokens.countP (fun t => t.lexeme == .bracket ⟨shape, false⟩)

theorem count_feed (d : Depth) (t : Token) (shape : Shape) :
    (t.feed d).count shape = d.count shape + excess shape [t] := by
  rw [Token.feed]
  split
  · rename_i b hbracket
    obtain ⟨bracketShape, opens⟩ := b
    rw [Depth.count_step]
    by_cases hshape : bracketShape = shape
    · cases opens <;> simp [excess, hbracket, hshape]
    · cases opens <;> simp [excess, hbracket, hshape]
  · rename_i hplain
    have hne (opens : Bool) : t.lexeme ≠ .bracket ⟨shape, opens⟩ := hplain _
    simp [excess, hne]

theorem excess_cons (shape : Shape) (t : Token) (tokens : List Token) :
    excess shape (t :: tokens) = excess shape [t] + excess shape tokens := by
  simp only [excess, List.countP_cons, List.countP_nil]
  omega

theorem count_foldl_feed (d : Depth) (tokens : List Token) (shape : Shape) :
    (tokens.foldl Token.feed d).count shape = d.count shape + excess shape tokens := by
  induction tokens generalizing d with
  | nil => simp [excess]
  | cons t tokens ih =>
    rw [List.foldl_cons, ih, count_feed, excess_cons shape t tokens]
    omega

@[simp] theorem count_zero (shape : Shape) : Depth.zero.count shape = 0 := by
  cases shape <;> rfl

theorem atTop_iff_count {d : Depth} : d.atTop = true ↔ ∀ shape, d.count shape = 0 := by
  constructor
  · intro htop shape
    rw [Depth.atTop_iff.mp htop, count_zero]
  · intro hcount
    have hround : d.round = 0 := hcount .round
    have hangle : d.angle = 0 := hcount .angle
    have hcurly : d.curly = 0 := hcount .curly
    have hsquare : d.square = 0 := hcount .square
    simp [Depth.atTop, hround, hangle, hcurly, hsquare]

theorem atTop_foldl_feed_iff {tokens : List Token} :
    (tokens.foldl Token.feed .zero).atTop = true ↔ ∀ shape, excess shape tokens = 0 := by
  simp only [atTop_iff_count, count_foldl_feed, count_zero, Int.zero_add]

/-! ### Types -/

theorem unended_append {d : Depth} {front back : List Token} :
    Unended d (front ++ back) ↔ Unended d front ∧ Unended (front.foldl Token.feed d) back := by
  induction front generalizing d with
  | nil => simp [Unended]
  | cons t front ih => simp [Unended, ih, and_assoc]

/-- The part of a source from one offset to another, with a blank for each of the comments in
it. -/
def blankedSlice (source : Text) (start stop : Nat) : List Token → Text
  | [] => source.extract start stop
  | comment :: rest =>
    source.extract start comment.start.offset ++ ' ' :: blankedSlice source comment.stop stop rest

theorem extract_append_extract (source : Text) {start middle stop : Nat} (hstart : start ≤ middle)
    (hstop : middle ≤ stop) :
    source.extract start middle ++ source.extract middle stop = source.extract start stop := by
  have hdrop : source.drop middle = (source.drop start).drop (middle - start) := by
    rw [List.drop_drop]
    congr 1
    omega
  rw [List.extract, List.extract, List.extract, hdrop,
    show stop - start = (middle - start) + (stop - middle) by omega, List.take_add]

theorem blankedSlice_split (source : Text) {start middle stop : Nat} {comments : List Token}
    (hstart : start ≤ middle) (hstop : middle ≤ stop)
    (hcomments : ∀ comment ∈ comments, middle ≤ comment.start.offset) :
    blankedSlice source start stop comments =
      source.extract start middle ++ blankedSlice source middle stop comments := by
  cases comments with
  | nil => exact (extract_append_extract source hstart hstop).symm
  | cons comment rest =>
    rw [blankedSlice, blankedSlice, ← List.append_assoc,
      extract_append_extract source hstart (hcomments comment List.mem_cons_self)]

section Tokenize

variable {source : Text} {before type after : List Token} {t assign : Token}

theorem leading_eq_extract (h : tokenize source = before ++ t :: after) :
    source.extract (sourceOf before).length t.start.offset = t.leading := by
  rw [List.extract, start_eq_of_append h, Nat.add_sub_cancel_left, source_eq_of_append h,
    List.append_assoc, List.drop_left, List.take_left]

theorem length_sourceOf_concat (h : tokenize source = before ++ t :: after) :
    (sourceOf (before ++ [t])).length = t.stop := by
  have hstart := start_eq_of_append h
  simp only [sourceOf, List.flatMap_append, List.flatMap_cons, List.flatMap_nil, List.length_append,
    List.length_nil] at hstart ⊢
  rw [Token.stop]
  omega

theorem length_sourceOf_le_start (h : tokenize source = before ++ after) (ht : t ∈ after) :
    (sourceOf before).length ≤ t.start.offset := by
  obtain ⟨front, back, rfl⟩ := List.append_of_mem ht
  rw [← List.append_assoc] at h
  have hstart := start_eq_of_append h
  simp only [sourceOf, List.flatMap_append, List.length_append] at hstart ⊢
  omega

/-- Between tokens and an equals sign, a source with blanks for comments is what the tokens
span. -/
theorem blankedSlice_eq (h : tokenize source = before ++ (type ++ assign :: after)) :
    blankedSlice source (sourceOf before).length assign.start.offset
        (type.filter Token.isComment) =
      type.flatMap (fun t => t.leading ++ t.plainText) ++ assign.leading := by
  induction type generalizing before with
  | nil => exact leading_eq_extract h
  | cons t type ih =>
    have hnext : tokenize source = (before ++ [t]) ++ (type ++ assign :: after) := by simp [h]
    have hleading : source.extract (sourceOf before).length t.start.offset = t.leading :=
      leading_eq_extract h
    have hlength : (sourceOf (before ++ [t])).length = t.stop := length_sourceOf_concat h
    by_cases hcomment : t.isComment = true
    · rw [List.filter_cons_of_pos hcomment, blankedSlice, ← hlength, ih hnext, hleading,
        List.flatMap_cons, Token.plainText, if_pos hcomment]
      simp
    · have htext : source.extract t.start.offset t.stop = t.text := by
        rw [List.extract, drop_start h, Token.stop, Nat.add_sub_cancel_left, List.take_left]
      have hmem : t ∈ t :: (type ++ assign :: after) := List.mem_cons_self
      have hstart := length_sourceOf_le_start h hmem
      have hstop : t.start.offset ≤ t.stop := Nat.le_add_right _ _
      have hassign : t.stop ≤ assign.start.offset := by
        rw [← hlength]
        exact length_sourceOf_le_start hnext (by simp)
      rw [List.filter_cons_of_neg hcomment,
        blankedSlice_split source (Nat.le_trans hstart hstop) hassign,
        ← extract_append_extract source hstart hstop, hleading, htext, ← hlength, ih hnext,
        List.flatMap_cons, Token.plainText, if_neg hcomment]
      · simp
      · intro comment hmem
        rw [← hlength]
        exact length_sourceOf_le_start hnext (by simp [(List.mem_filter.mp hmem).1])

theorem spannedText_eq_trim_blankedSlice
    (h : tokenize source = before ++ (type ++ assign :: after)) :
    spannedText type = (blankedSlice source (sourceOf before).length assign.start.offset
      (type.filter Token.isComment)).trim := by
  have hblank {t : Token} (ht : t ∈ type ++ assign :: after) :
      ∀ c ∈ t.leading, isBlank c = true :=
    Lexer.isBlank_of_mem_leading (List.forall_mem_nil _) t (h ▸ List.mem_append_right _ ht)
  rw [blankedSlice_eq h, Text.trim_append_blanks (hblank (by simp))]
  cases type with
  | nil => rfl
  | cons t type =>
    rw [List.flatMap_cons, List.append_assoc, Text.trim_blanks_append (hblank (by simp))]
    rfl

end Tokenize

/-! ### Windows -/

/-- The tokens of a declaration.  Its equals sign is the first one behind the colon before which
the brackets of every shape close as often as they open. -/
structure Window where
  keyword : Token
  beforeName : List Token
  name : Token
  beforeColon : List Token
  colon : Token
  type : List Token
  assign : Token
  beforeBinding : List Token
  binding : Token
  lexeme_keyword : keyword.lexeme = .external
  lexeme_name : name.lexeme = .identifier
  lexeme_colon : colon.lexeme = .colon
  lexeme_assign : assign.lexeme = .assign
  comments : ∀ t ∈ beforeName ++ beforeColon ++ beforeBinding, t.isComment = true
  balanced : ∀ shape, excess shape type = 0
  first : ∀ front t back, type = front ++ t :: back → t.lexeme = .assign →
    ∃ shape, excess shape front ≠ 0

namespace Window

def tokens (w : Window) : List Token :=
  w.keyword :: (w.beforeName ++ w.name :: (w.beforeColon ++ w.colon ::
    (w.type ++ w.assign :: (w.beforeBinding ++ [w.binding]))))

/-- What a window of a source declares. -/
structure Declares (file source : Text) (w : Window) (d : Declaration) : Prop where
  name : d.name = w.name.text
  binding : w.binding.lexeme = .string d.binding ∨ w.binding.lexeme = .char d.binding ∨
    w.binding.lexeme = .identifier ∧ w.binding.text = d.binding
  typeText : d.typeText = (blankedSlice source w.colon.stop w.assign.start.offset
    (w.type.filter Token.isComment)).trim
  file : d.file = file
  line : d.line = w.keyword.start.line
  column : d.column = w.keyword.start.column

end Window

/-- The windows stand in the tokens, one behind the other. -/
inductive InOrder : List Token → List Window → Prop
  | nil (tokens : List Token) : InOrder tokens []
  | cons {before after : List Token} {w : Window} {windows : List Window}
      (h : InOrder after windows) : InOrder (before ++ w.tokens ++ after) (w :: windows)

theorem InOrder.append_left {tokens : List Token} {windows : List Window}
    (h : InOrder tokens windows) (before : List Token) : InOrder (before ++ tokens) windows := by
  cases h with
  | nil => exact .nil _
  | @cons front after w windows h =>
    rw [← List.append_assoc, ← List.append_assoc]
    exact .cons h

theorem InOrder.subset {tokens : List Token} {windows : List Window} (h : InOrder tokens windows) :
    ∀ w ∈ windows, w.tokens ⊆ tokens := by
  induction h with
  | nil => simp
  | cons h ih =>
    intro v hv t ht
    rcases List.mem_cons.mp hv with rfl | hv
    · simp [ht]
    · simp [ih v hv ht]

/-- Among tokens that start behind the ends of those before them, so do the windows. -/
theorem InOrder.pairwise {tokens : List Token} {windows : List Window} (h : InOrder tokens windows)
    (htokens : tokens.Pairwise fun t u => t.stop ≤ u.start.offset) :
    windows.Pairwise fun v w => v.binding.stop ≤ w.keyword.start.offset := by
  induction h with
  | nil => exact .nil
  | @cons before after v windows h ih =>
    obtain ⟨-, hafter, hbehind⟩ := List.pairwise_append.mp htokens
    refine List.pairwise_cons.mpr ⟨fun w hw => ?_, ih hafter⟩
    apply hbehind v.binding
    · simp [Window.tokens]
    · exact h.subset w hw List.mem_cons_self

/-! ### Declarations -/

theorem binding?_eq_some_iff {t : Token} {value : Text} :
    t.binding? = some value ↔ t.lexeme = .string value ∨ t.lexeme = .char value ∨
      t.lexeme = .identifier ∧ t.text = value := by
  rw [Token.binding?]
  split
  all_goals simp_all

/-- A declaration comes from a window that begins with its keyword. -/
theorem exists_window {file source : Text} {pending : Attributes} {before rest : List Token}
    {keyword : Token} {d : Declaration} (hsource : tokenize source = before ++ keyword :: rest)
    (hkeyword : keyword.lexeme = .external)
    (hd : (attempt file pending keyword rest).1 = some d) :
    ∃ w : Window, w.Declares file source d ∧ keyword :: rest = w.tokens ++ resumption rest := by
  obtain ⟨used, hrest, hattempt⟩ := attempts_attempt file pending keyword rest
  rw [attempt_snd] at hrest hattempt
  rw [hd] at hattempt
  generalize resumption rest = left at hrest hattempt
  cases hattempt with
  | @complete opening type comments _ name assign binding value hopening hassign htype hcomments
      hbinding =>
    obtain @⟨beforeName, beforeColon, colon, hbeforeName, hname, hbeforeColon, hcolon⟩ := hopening
    obtain ⟨hunended, htop⟩ := unended_of_takeType? htype
    let w : Window :=
      { keyword, beforeName, name, beforeColon, colon, type, assign, beforeBinding := comments,
        binding, lexeme_keyword := hkeyword, lexeme_name := hname, lexeme_colon := hcolon,
        lexeme_assign := hassign
        comments := by
          intro t ht
          simp only [List.mem_append] at ht
          rcases ht with (ht | ht) | ht
          · exact hbeforeName t ht
          · exact hbeforeColon t ht
          · exact hcomments t ht
        balanced := atTop_foldl_feed_iff.mp htop
        first := by
          rintro front t back rfl hlexeme
          have hnot := (unended_append.mp hunended).2.2.1
          rw [atTop_foldl_feed_iff] at hnot
          exact not_forall.mp fun hexcess => hnot ⟨hlexeme, hexcess⟩ }
    refine ⟨w, ⟨rfl, binding?_eq_some_iff.mp hbinding, ?_, rfl, rfl, rfl⟩, by simp [w, hrest,
      Window.tokens]⟩
    have hcolonSource : tokenize source =
        (before ++ keyword :: (beforeName ++ name :: beforeColon)) ++
          colon :: (type ++ assign :: (comments ++ binding :: left)) := by
      simp [hsource, hrest]
    have htypeSource : tokenize source =
        (before ++ keyword :: (beforeName ++ name :: beforeColon) ++ [colon]) ++
          (type ++ assign :: (comments ++ binding :: left)) := by
      simp [hcolonSource]
    rw [← length_sourceOf_concat hcolonSource]
    exact spannedText_eq_trim_blankedSlice htypeSource

/-- The declarations of tokens come from windows of them, in order. -/
theorem windows_of_declarations {file source : Text} (pending : Attributes)
    {before tokens : List Token} (hsource : tokenize source = before ++ tokens) :
    ∃ windows, List.Forall₂ (Window.Declares file source) windows
        (declarations file pending tokens) ∧ InOrder tokens windows := by
  induction pending, tokens using induction_resume generalizing before with
  | nil pending => exact ⟨[], by simp [declarations], .nil _⟩
  | cons pending t rest ih =>
    have hstep : Runs pending (t :: rest) (t.passOn pending) (t.resume rest) := .step (.refl _ _)
    obtain ⟨used, hused⟩ := hstep.suffix
    have hresume : tokenize source = (before ++ used) ++ t.resume rest := by
      rw [hsource, ← hused, List.append_assoc]
    obtain ⟨windows, hdeclares, horder⟩ := ih hresume
    rw [declarations_cons]
    cases hd : declared file pending t rest with
    | none =>
      refine ⟨windows, hdeclares, ?_⟩
      rw [← hused]
      exact horder.append_left used
    | some d =>
      obtain ⟨hexternal, -⟩ := declared_eq_some hd
      rw [declared, if_pos hexternal] at hd
      rw [Token.resume, if_pos hexternal] at horder
      obtain ⟨w, hw, htokens⟩ := exists_window hsource hexternal hd
      refine ⟨w :: windows, .cons hw hdeclares, ?_⟩
      rw [htokens]
      exact @InOrder.cons [] _ w windows horder

/-- The declarations of a source come, in order, from windows of its tokens that stand one behind
the other, each where the one before it has stopped or later. -/
theorem windows_of_scan (file source : Text) :
    ∃ windows : List Window,
      List.Forall₂ (Window.Declares file source) windows (scan file source) ∧
      InOrder (tokenize source) windows ∧
      windows.Pairwise fun v w => v.binding.stop ≤ w.keyword.start.offset := by
  obtain ⟨windows, hdeclares, horder⟩ := @windows_of_declarations file source .empty [] _ rfl
  refine ⟨windows, hdeclares, horder, horder.pairwise ?_⟩
  exact (Lexer.ordered_tokensFrom [] .start source).1.imp And.right

end ForeignBindings
