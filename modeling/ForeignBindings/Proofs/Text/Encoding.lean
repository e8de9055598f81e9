import ForeignBindings.Text.Lines
import ForeignBindings.Text.Utf8
import Mathlib.Data.List.Basic

/-! Decoding undoes encoding.  A character is read back from its bytes before any others, so a text
is read back from all of its bytes; and without carriage returns its line ends stay as they are. -/

namespace ForeignBindings

namespace Utf8

/-! ### Bytes -/

theorem toList_loop (bytes : ByteArray) (i : Nat) (front : List UInt8) :
    ByteArray.toList.loop bytes i front = front.reverse ++ bytes.data.toList.drop i := by
  fun_induction ByteArray.toList.loop bytes i front with
  | case1 i front hlt ih =>
    have hlength : i < bytes.data.toList.length := by simpa using hlt
    have hbyte : bytes.get! i = bytes.data.toList[i] := by
      rw [Array.getElem_toList]
      exact getElem!_pos bytes.data i hlt
    rw [ih, List.drop_eq_getElem_cons hlength, hbyte]
    simp
  | case2 i front hlt =>
    rw [List.drop_eq_nil_of_le (by simpa using Nat.le_of_not_lt hlt), List.append_nil]

/-- A text is encoded character by character. -/
theorem encode_eq_flatMap (text : Text) : encode text = text.flatMap String.utf8EncodeChar := by
  have hbytes : (String.ofList text).toUTF8 = (text.flatMap String.utf8EncodeChar).toByteArray :=
    String.toByteArray_ofList
  rw [encode, hbytes, ByteArray.toList, toList_loop, List.toList_data_toByteArray]
  rfl

theorem toNat_ofNat_of_lt {n : Nat} (h : n < 256) : (UInt8.ofNat n).toNat = n :=
  UInt8.toNat_ofNat_of_lt' h

/-! ### Characters -/

/-- A byte that may follow adds its six bits. -/
theorem continueWith_ofNat {following bits point n : Nat} {low high : UInt8} {rest : List UInt8}
    (hsix : n < 64) (hlow : low.toNat ≤ n + 128) (hhigh : n + 128 ≤ high.toNat)
    (h : continueWith following 0x80 0xbf (64 * bits + n) rest = .ok point) :
    continueWith (following + 1) low high bits (UInt8.ofNat (n + 128) :: rest) = .ok point := by
  have hbyte : (UInt8.ofNat (n + 128)).toNat = n + 128 := toNat_ofNat_of_lt (by omega)
  have hbounds : low ≤ UInt8.ofNat (n + 128) ∧ UInt8.ofNat (n + 128) ≤ high := by
    rw [UInt8.le_iff_toNat_le, UInt8.le_iff_toNat_le, hbyte]
    exact ⟨hlow, hhigh⟩
  rw [continueWith, if_pos hbounds, hbyte, Nat.add_sub_cancel, h]

theorem readChar_of_lead {n point : Nat} {lead : Lead} {rest : List UInt8} (hbyte : n < 256)
    (hlarge : 128 ≤ n) (hlead : Lead.ofByte? (UInt8.ofNat n) = some lead)
    (hpoint : continueWith lead.following lead.low lead.high lead.bits rest = .ok point) :
    readChar (UInt8.ofNat n) rest = .ok (Char.ofNat point, lead.following) := by
  have hlong : ¬UInt8.ofNat n < 0x80 := by
    rw [UInt8.lt_iff_toNat_lt, toNat_ofNat_of_lt hbyte]
    simpa using hlarge
  rw [readChar, if_neg hlong, hlead]
  simp only [hpoint]

/-- The lead byte of three leaves out overlong forms and surrogates. -/
theorem ofByte?_three {v : Nat} (hlow : 0x800 ≤ v) (hhigh : v ≤ 0xffff)
    (hvalid : v < 0xd800 ∨ 0xdfff < v) :
    ∃ low high, Lead.ofByte? (UInt8.ofNat (v / 4096 % 16 + 224)) = some ⟨v / 4096, 2, low, high⟩ ∧
      low.toNat ≤ v / 64 % 64 + 128 ∧ v / 64 % 64 + 128 ≤ high.toNat := by
  have hbyte : (UInt8.ofNat (v / 4096 % 16 + 224)).toNat = v / 4096 + 224 := by
    rw [toNat_ofNat_of_lt (by omega)]
    omega
  rw [Lead.ofByte?, hbyte]
  rw [if_neg (by omega)]
  by_cases hfirst : v / 4096 = 0
  · rw [if_pos (by omega), hfirst]
    exact ⟨0xa0, 0xbf, rfl, by simp; omega, by simp; omega⟩
  · rw [if_neg (by omega)]
    by_cases hsurrogate : v / 4096 = 13
    · rw [if_pos (by omega), hsurrogate]
      exact ⟨0x80, 0x9f, rfl, by simp, by simp; omega⟩
    · rw [if_neg (by omega), if_pos (by omega)]
      exact ⟨0x80, 0xbf, by simp, by simp, by simp; omega⟩

/-- The lead byte of four leaves out overlong forms and what is beyond all characters. -/
theorem ofByte?_four {v : Nat} (hlow : 0xffff < v) (hhigh : v < 0x110000) :
    ∃ low high, Lead.ofByte? (UInt8.ofNat (v / 262144 % 8 + 240)) =
        some ⟨v / 262144, 3, low, high⟩ ∧
      low.toNat ≤ v / 4096 % 64 + 128 ∧ v / 4096 % 64 + 128 ≤ high.toNat := by
  have hbyte : (UInt8.ofNat (v / 262144 % 8 + 240)).toNat = v / 262144 + 240 := by
    rw [toNat_ofNat_of_lt (by omega)]
    omega
  rw [Lead.ofByte?, hbyte]
  rw [if_neg (by omega), if_neg (by omega), if_neg (by omega), if_neg (by omega)]
  by_cases hfirst : v / 262144 = 0
  · rw [if_pos (by omega), hfirst]
    exact ⟨0x90, 0xbf, rfl, by simp; omega, by simp; omega⟩
  · rw [if_neg (by omega)]
    by_cases hlast : v / 262144 = 4
    · rw [if_neg (by omega), if_pos (by omega), hlast]
      exact ⟨0x80, 0x8f, rfl, by simp, by simp; omega⟩
    · rw [if_pos (by omega)]
      exact ⟨0x80, 0xbf, by simp, by simp, by simp; omega⟩

/-- A character is read back from its bytes before any others. -/
theorem readChar_utf8EncodeChar (c : Char) (rest : List UInt8) :
    ∃ b more, String.utf8EncodeChar c = b :: more ∧
      readChar b (more ++ rest) = .ok (c, more.length) := by
  obtain ⟨v, hv⟩ : ∃ v, c.val.toNat = v := ⟨_, rfl⟩
  have hvalid : v < 0xd800 ∨ 0xdfff < v ∧ v < 0x110000 := hv ▸ c.valid
  have hchar : Char.ofNat v = c := hv ▸ Char.ofNat_toNat c
  rw [String.utf8EncodeChar, hv]
  -- the cases are those of the number of bytes, from one to four
  split
  · have hbyte : (UInt8.ofNat v).toNat = v := toNat_ofNat_of_lt (by omega)
    have hshort : UInt8.ofNat v < 0x80 := by
      rw [UInt8.lt_iff_toNat_lt, hbyte]
      simp
      omega
    refine ⟨_, _, rfl, ?_⟩
    rw [readChar, if_pos hshort, hbyte, hchar]
    rfl
  split
  · have hbyte : (UInt8.ofNat (v / 64 % 32 + 192)).toNat = v / 64 + 192 := by
      rw [toNat_ofNat_of_lt (by omega)]
      omega
    have hbits : Lead.ofByte? (UInt8.ofNat (v / 64 % 32 + 192)) = some ⟨v / 64, 1, 0x80, 0xbf⟩ := by
      rw [Lead.ofByte?, hbyte, if_pos (by omega), Nat.add_sub_cancel]
    have hpoint : continueWith 1 0x80 0xbf (v / 64) (UInt8.ofNat (v % 64 + 128) :: rest) = .ok v :=
      continueWith_ofNat (by omega) (by simp) (by simp; omega)
        (by rw [continueWith, Nat.div_add_mod])
    rw [← hchar]
    exact ⟨_, _, rfl, readChar_of_lead (by omega) (by omega) hbits hpoint⟩
  split
  · obtain ⟨low, high, hbits, hlow, hhigh⟩ := @ofByte?_three v (by omega) (by omega) (by omega)
    have hpoint : continueWith 2 low high (v / 4096)
        (UInt8.ofNat (v / 64 % 64 + 128) :: UInt8.ofNat (v % 64 + 128) :: rest) = .ok v := by
      apply continueWith_ofNat (by omega) hlow hhigh
      apply continueWith_ofNat (by omega) (by simp) (by simp; omega)
      rw [continueWith]
      congr 1
      omega
    rw [← hchar]
    exact ⟨_, _, rfl, readChar_of_lead (by omega) (by omega) hbits hpoint⟩
  · obtain ⟨low, high, hbits, hlow, hhigh⟩ := @ofByte?_four v (by omega) (by omega)
    have hpoint : continueWith 3 low high (v / 262144) (UInt8.ofNat (v / 4096 % 64 + 128) ::
        UInt8.ofNat (v / 64 % 64 + 128) :: UInt8.ofNat (v % 64 + 128) :: rest) = .ok v := by
      apply continueWith_ofNat (by omega) hlow hhigh
      apply continueWith_ofNat (by omega) (by simp) (by simp; omega)
      apply continueWith_ofNat (by omega) (by simp) (by simp; omega)
      rw [continueWith]
      congr 1
      omega
    rw [← hchar]
    exact ⟨_, _, rfl, readChar_of_lead (by omega) (by omega) hbits hpoint⟩

theorem decodeFrom_encode (position : Nat) (text : Text) :
    decodeFrom position (encode text) = .ok text := by
  rw [encode_eq_flatMap]
  induction text generalizing position with
  | nil => rw [List.flatMap_nil, decodeFrom]
  | cons c text ih =>
    obtain ⟨b, more, hbytes, hread⟩ :=
      readChar_utf8EncodeChar c (text.flatMap String.utf8EncodeChar)
    rw [List.flatMap_cons, hbytes, List.cons_append, decodeFrom, hread]
    dsimp only
    rw [List.drop_left, ih]

theorem decode_encode (text : Text) : decode (encode text) = .ok text := decodeFrom_encode 0 text

end Utf8

/-! ### Line ends -/

theorem Text.unifyNewlines_of_not_mem {text : Text} (h : '\r' ∉ text) :
    text.unifyNewlines = text := by
  induction text with
  | nil => rfl
  | cons c text ih =>
    rw [List.mem_cons, not_or] at h
    obtain ⟨hc, htext⟩ := h
    rw [unifyNewlines, ih htext, if_neg (Ne.symm hc)]
    rintro rest rfl
    exact absurd rfl hc

end ForeignBindings
