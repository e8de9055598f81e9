import ForeignBindings.Proofs.Nesting.Reading

/-! Texts in double quotes.  A text without quotes and backslashes is one literal when it stands in
quotes, whatever else it holds: it is a part that nothing divides, and unquoting gives it back. -/

namespace ForeignBindings.Text

/-- The text between double quotes. -/
def stringLiteral (text : Text) : Text := enclosed '\x22' '\x22' text

/-- Nothing in the text ends a string or hides what follows it. -/
def Quotable (text : Text) : Prop := '\x22' ∉ text ∧ '\x5c' ∉ text

instance : DecidablePred Quotable := fun text =>
  inferInstanceAs (Decidable ('\x22' ∉ text ∧ '\x5c' ∉ text))

theorem stringTail_quotable {text : Text} (h : Quotable text) (more : Text) :
    stringTail '\x22' (text ++ '\x22' :: more) = (text.length + 1, true) := by
  induction text with
  | nil =>
    rw [List.nil_append, stringTail_cons (by decide), if_pos rfl]
    rfl
  | cons c text ih =>
    obtain ⟨hquote, hescape⟩ := h
    rw [List.mem_cons, not_or] at hquote hescape
    rw [List.cons_append, stringTail_cons (Ne.symm hescape.1), if_neg (Ne.symm hquote.1),
      ih ⟨hquote.2, hescape.2⟩, List.length_cons]

theorem pieces_stringLiteral_append {text : Text} (h : Quotable text) (more : Text) :
    pieces (stringLiteral text ++ more) = .literal (stringLiteral text) :: pieces more := by
  have htail : literalTail? '\x22' (text ++ ['\x22'] ++ more) = some (text.length + 1) := by
    rw [List.append_assoc, literalTail?, if_neg (by decide), if_pos (by decide)]
    exact congrArg (some ·.1) (stringTail_quotable h more)
  have hlength : text.length + 1 = (text ++ ['\x22']).length := by simp
  rw [stringLiteral, enclosed, List.cons_append, pieces, htail, hlength]
  simp only [List.take_left, List.drop_left]

theorem pieces_stringLiteral {text : Text} (h : Quotable text) :
    pieces (stringLiteral text) = [.literal (stringLiteral text)] := by
  have happend := pieces_stringLiteral_append h []
  rwa [List.append_nil, pieces_nil] at happend

theorem isPart_stringLiteral {text : Text} (h : Quotable text) : IsPart (stringLiteral text) := by
  have hpieces := pieces_stringLiteral h
  refine ⟨begins_cons rfl, finishes_concat ('\x22' :: text) rfl, ?_, ?_, ?_⟩
  · intro rest _
    rw [pieces_stringLiteral_append h, hpieces]
    rfl
  · rw [isBalanced, hpieces]
    rfl
  · rw [hpieces]
    exact ⟨by simp [Piece.separator?], trivial⟩

theorem unquote_stringLiteral (text : Text) : unquote (stringLiteral text) = text := by
  rw [unquote, if_pos]
  · exact inner_enclosed ..
  · refine ⟨?_, .inl (enclosedBy_enclosed ..)⟩
    rw [stringLiteral, enclosed, List.length_cons, List.length_append, List.length_singleton]
    omega

theorem map_unquote_stringLiteral (texts : List Text) :
    (texts.map stringLiteral).map unquote = texts := by
  rw [List.map_map]
  exact List.map_id'' unquote_stringLiteral texts

end ForeignBindings.Text
