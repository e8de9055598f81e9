/-! Text as a list of characters, with the cuts and joins that the rest of the library uses.  Every
offset, column and length in the library counts characters of such a list. -/

namespace ForeignBindings

/-- A text is the list of its characters. -/
abbrev Text := List Char

namespace Text

/-- The text without its first `n` and its last `n` characters. -/
def inner (n : Nat) (text : Text) : Text := (text.drop n).take (text.length - 2 * n)

/-- The text begins with `opening` and ends with `closing`. -/
def enclosedBy (opening closing : Char) (text : Text) : Bool :=
  text.head? == some opening && text.getLast? == some closing

/-- The runs of characters between separators: one more than there are separators, and some of
them may be empty. -/
def fields (isSeparator : Char → Bool) : Text → List Text
  | [] => [[]]
  | c :: rest =>
    if isSeparator c then [] :: fields isSeparator rest
    else match fields isSeparator rest with
      | [] => [[c]]
      | field :: more => (c :: field) :: more

/-- The texts in order, with `separator` between neighbours. -/
def join (separator : Text) (texts : List Text) : Text := separator.intercalate texts

def ofNat (n : Nat) : Text := Nat.toDigits 10 n

/-- The decimal digits of an integer, after a minus sign if it is negative. -/
def ofInt : Int → Text
  | .ofNat n => ofNat n
  | .negSucc n => '-' :: ofNat (n + 1)

/-- The text, with blanks before it until it has `width` characters. -/
def padStart (width : Nat) (text : Text) : Text := List.replicate (width - text.length) ' ' ++ text

/-- The text, with zeros before it until it has `width` characters. -/
def padZeros (width : Nat) (text : Text) : Text := List.replicate (width - text.length) '0' ++ text

/-- The lower-case letters and digits that write `n` in base sixteen with at least `width`
places. -/
def hexadecimal (width n : Nat) : Text := padZeros width (Nat.toDigits 16 n)

/-- The text with every occurrence of `pattern`, found from the left, replaced. -/
def replaceAll (pattern replacement : Text) : Text → Text
  | [] => []
  | c :: rest =>
    if pattern ≠ [] ∧ pattern.isPrefixOf (c :: rest) then
      replacement ++ replaceAll pattern replacement (rest.drop (pattern.length - 1))
    else c :: replaceAll pattern replacement rest
termination_by text => text.length
decreasing_by
  · simp only [List.length_drop, List.length_cons]; omega
  · simp

/-- ASCII letters in lower case. -/
def lower (text : Text) : Text := text.map Char.toLower

/-- ASCII letters in upper case. -/
def upper (text : Text) : Text := text.map Char.toUpper

end Text

end ForeignBindings
