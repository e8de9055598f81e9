import ForeignBindings.Text.Basic

/-! Decoding of UTF-8.  A fault names the longest run of bytes that begins a character and cannot be
continued; overlong forms and surrogates are refused at the byte where they differ from every
character. -/

namespace ForeignBindings.Utf8

/-- What is wrong with the bytes at a position. -/
inductive Fault
  | invalidStart
  | invalidContinuation
  | unexpectedEnd
  deriving DecidableEq

def Fault.message : Fault → Text
  | .invalidStart => "invalid start byte".toList
  | .invalidContinuation => "invalid continuation byte".toList
  | .unexpectedEnd => "unexpected end of data".toList

/-- A run of `length` bytes from `position`, the first of them `byte`, that is no character. -/
structure DecodeError where
  fault : Fault
  byte : UInt8
  position : Nat
  length : Nat

/-- The wording of a decoding error: a single byte is shown, of a longer run only the place. -/
def DecodeError.message (e : DecodeError) : Text :=
  "'utf-8' codec can't decode ".toList ++
    (if e.length = 1 then
      "byte 0x".toList ++ Text.hexadecimal 2 e.byte.toNat ++ " in position ".toList ++
        Text.ofNat e.position
    else
      "bytes in position ".toList ++ Text.ofNat e.position ++ "-".toList ++
        Text.ofNat (e.position + e.length - 1)) ++
    ": ".toList ++ e.fault.message

/-- The start of a character: its bits, how many bytes follow, and the bounds of the first of
them. -/
structure Lead where
  bits : Nat
  following : Nat
  low : UInt8
  high : UInt8

/-- The lead bytes of characters of more than one byte. -/
def Lead.ofByte? (b : UInt8) : Option Lead :=
  let n := b.toNat
  if 0xc2 ≤ n ∧ n ≤ 0xdf then some ⟨n - 0xc0, 1, 0x80, 0xbf⟩
  else if n = 0xe0 then some ⟨0, 2, 0xa0, 0xbf⟩
  else if n = 0xed then some ⟨13, 2, 0x80, 0x9f⟩
  else if 0xe1 ≤ n ∧ n ≤ 0xef then some ⟨n - 0xe0, 2, 0x80, 0xbf⟩
  else if n = 0xf0 then some ⟨0, 3, 0x90, 0xbf⟩
  else if 0xf1 ≤ n ∧ n ≤ 0xf3 then some ⟨n - 0xf0, 3, 0x80, 0xbf⟩
  else if n = 0xf4 then some ⟨4, 3, 0x80, 0x8f⟩
  else none

/-- Adds `n` following bytes to `bits`: the code point, or the fault and how many bytes fitted. -/
def continueWith : Nat → UInt8 → UInt8 → Nat → List UInt8 → Except (Fault × Nat) Nat
  | 0, _, _, bits, _ => .ok bits
  | _ + 1, _, _, _, [] => .error (.unexpectedEnd, 0)
  | n + 1, low, high, bits, b :: rest =>
    if low ≤ b ∧ b ≤ high then
      match continueWith n 0x80 0xbf (64 * bits + (b.toNat - 0x80)) rest with
      | .ok point => .ok point
      | .error (fault, fitted) => .error (fault, fitted + 1)
    else .error (.invalidContinuation, 0)

/-- The character at the head of `b :: rest` and how many bytes follow `b` in it. -/
def readChar (b : UInt8) (rest : List UInt8) : Except (Fault × Nat) (Char × Nat) :=
  if b < 0x80 then .ok (Char.ofNat b.toNat, 0)
  else match Lead.ofByte? b with
    | none => .error (.invalidStart, 1)
    | some lead =>
      match continueWith lead.following lead.low lead.high lead.bits rest with
      | .ok point => .ok (Char.ofNat point, lead.following)
      | .error (fault, fitted) => .error (fault, fitted + 1)

/-- Decodes bytes of which the first stands at `position`. -/
def decodeFrom (position : Nat) : List UInt8 → Except DecodeError Text
  | [] => .ok []
  | b :: rest =>
    match readChar b rest with
    | .error (fault, length) => .error ⟨fault, b, position, length⟩
    | .ok (c, following) =>
      match decodeFrom (position + 1 + following) (rest.drop following) with
      | .error e => .error e
      | .ok text => .ok (c :: text)
termination_by bytes => bytes.length
decreasing_by simp only [List.length_drop, List.length_cons]; omega

/-- The text that the bytes encode. -/
def decode (bytes : List UInt8) : Except DecodeError Text := decodeFrom 0 bytes

/-- How many bytes encode a text. -/
def size (text : Text) : Nat := text.foldr (fun c n => c.utf8Size + n) 0

/-- The bytes that encode a text. -/
def encode (text : Text) : List UInt8 := (String.ofList text).toUTF8.toList

end ForeignBindings.Utf8
