/-
# Encoded texts are decoded

A character is encoded in one to four bytes:

| character | first byte | then |
| --- | --- | --- |
| up to `U+007F` | `0xxxxxxx` | nothing |
| up to `U+07FF` | `110xxxxx` | one byte `10xxxxxx` |
| up to `U+FFFF` | `1110xxxx` | two of them |
| any other | `11110xxx` | three of them |

Of these the decoder refuses none, and it puts the bits together again: what it
reads from the bytes of a text is that text.
-/

import Mathlib.Tactic.SplitIfs
import Shank.Text.Utf8

namespace Shank
namespace Text

/-! ## Bytes as numbers

The decoder compares bytes by their bits, and the encoder makes them by
arithmetic. Both are told as numbers here.
-/

/-- A byte in the middle of a character, as a number: the two highest bits are
`10`. -/
theorem isContinuation_iff {b : UInt8} : isContinuation b = true ↔ 0x80 ≤ b.toNat ∧ b.toNat < 0xC0 := by
  simp [isContinuation, UInt8.le_iff_toNat_le, UInt8.lt_iff_toNat_lt]

/-- The second byte of a character, as a number. After some first bytes it is
bounded further, so that no character is encoded too long, none is a surrogate,
and none lies past the last one. -/
theorem isSecond_iff {first b : UInt8} :
    isSecond first b = true ↔ (0x80 ≤ b.toNat ∧ b.toNat < 0xC0) ∧
      (first.toNat = 0xE0 → 0xA0 ≤ b.toNat) ∧ (first.toNat = 0xED → b.toNat < 0xA0) ∧
      (first.toNat = 0xF0 → 0x90 ≤ b.toNat) ∧ (first.toNat = 0xF4 → b.toNat < 0x90) := by
  rw [isSecond, Bool.and_eq_true, isContinuation_iff]
  refine and_congr_right fun _ => ?_
  simp only [← UInt8.toNat_inj, UInt8.reduceToNat]
  split_ifs <;> simp_all [UInt8.le_iff_toNat_le, UInt8.lt_iff_toNat_lt]

/-- How many bytes must follow a first one, as a number; bytes in the middle of
a character, and those that only start too long or too large ones, cannot be
first. -/
theorem followers?_eq (b : UInt8) :
    followers? b =
      if b.toNat < 0x80 then some 0
      else if b.toNat < 0xC2 then none
      else if b.toNat < 0xE0 then some 1
      else if b.toNat < 0xF0 then some 2
      else if b.toNat < 0xF5 then some 3
      else none := by
  simp [followers?, UInt8.lt_iff_toNat_lt]

/-! ## One character

A character has from one to four bytes, and the first one tells how many. What
is behind it is not looked at.
-/

/-- The bytes of a character are read in the same way when others come behind
them. -/
theorem continueWith_append {ok : UInt8 → Bool} {value taken k v : Nat} {bs : List UInt8}
    (h : continueWith ok value taken k bs = .ok v) (rest : List UInt8) :
    continueWith ok value taken k (bs ++ rest) = .ok v := by
  induction k generalizing ok value taken bs with
  | zero => exact h
  | succ k ih =>
    cases bs with
    | nil => cases h
    | cons b bs =>
      rw [continueWith] at h
      rw [List.cons_append, continueWith]
      split at h
      · rw [if_pos ‹_›]
        exact ih h
      · cases h

/-- A first byte, and the bytes that must follow it, are a character. -/
theorem decodeFrom_eq {b : UInt8} {bs : List UInt8} {v : Nat} (hlength : followers? b = some bs.length)
    (hvalue : continueWith (isSecond b) (leadBits bs.length b) 0 bs.length bs = .ok v) (start : Nat)
    (done : List Char) (rest : List UInt8) :
    decodeFrom start done ((b :: bs) ++ rest) =
      decodeFrom (start + 1 + bs.length) (Char.ofNat v :: done) rest := by
  rw [List.cons_append, decodeFrom, hlength]
  simp only [continueWith_append hvalue rest, List.drop_left]

/-- The bytes of a character are read as that character. -/
theorem decodeFrom_utf8EncodeChar (c : Char) (start : Nat) (done : List Char) (rest : List UInt8) :
    ∃ next, decodeFrom start done (String.utf8EncodeChar c ++ rest) =
      decodeFrom next (c :: done) rest := by
  have hvalid : c.toNat < 0xD800 ∨ 0xDFFF < c.toNat ∧ c.toNat < 0x110000 := c.valid
  have toNat {n : Nat} (h : n < 256) : (UInt8.ofNat n).toNat = n := UInt8.toNat_ofNat_of_lt' h
  have hread {b : UInt8} {bs : List UInt8} (hlength : followers? b = some bs.length)
      (hvalue : continueWith (isSecond b) (leadBits bs.length b) 0 bs.length bs = .ok c.toNat) :
      ∃ next, decodeFrom start done ((b :: bs) ++ rest) = decodeFrom next (c :: done) rest :=
    ⟨_, by rw [decodeFrom_eq hlength hvalue, Char.ofNat_toNat]⟩
  unfold String.utf8EncodeChar
  simp only [show c.val.toNat = c.toNat from rfl]
  split_ifs with h₁ h₂ h₃
  · have hb := toNat (n := c.toNat) (by omega)
    refine hread ?_ ?_
    · rw [followers?_eq, if_pos (by omega)]
      rfl
    · exact congrArg Except.ok hb
  · have hb := toNat (n := c.toNat / 64 % 32 + 192) (by omega)
    have hb₁ := toNat (n := c.toNat % 64 + 128) (by omega)
    refine hread ?_ ?_
    · rw [followers?_eq, if_neg (by omega), if_neg (by omega), if_pos (by omega)]
      rfl
    · simp only [List.length_cons, List.length_nil, continueWith, leadBits]
      rw [if_pos (isSecond_iff.2 (by omega)), hb, hb₁]
      congr 1
      omega
  · have hb := toNat (n := c.toNat / 4096 % 16 + 224) (by omega)
    have hb₁ := toNat (n := c.toNat / 64 % 64 + 128) (by omega)
    have hb₂ := toNat (n := c.toNat % 64 + 128) (by omega)
    refine hread ?_ ?_
    · rw [followers?_eq, if_neg (by omega), if_neg (by omega), if_neg (by omega), if_pos (by omega)]
      rfl
    · simp only [List.length_cons, List.length_nil, continueWith, leadBits]
      rw [if_pos (isSecond_iff.2 (by omega)), if_pos (isContinuation_iff.2 (by omega)), hb, hb₁, hb₂]
      congr 1
      omega
  · have hb := toNat (n := c.toNat / 262144 % 8 + 240) (by omega)
    have hb₁ := toNat (n := c.toNat / 4096 % 64 + 128) (by omega)
    have hb₂ := toNat (n := c.toNat / 64 % 64 + 128) (by omega)
    have hb₃ := toNat (n := c.toNat % 64 + 128) (by omega)
    refine hread ?_ ?_
    · rw [followers?_eq, if_neg (by omega), if_neg (by omega), if_neg (by omega), if_neg (by omega),
        if_pos (by omega)]
      rfl
    · simp only [List.length_cons, List.length_nil, continueWith, leadBits]
      rw [if_pos (isSecond_iff.2 (by omega)), if_pos (isContinuation_iff.2 (by omega)),
        if_pos (isContinuation_iff.2 (by omega)), hb, hb₁, hb₂, hb₃]
      congr 1
      omega

/-- **What is read from the bytes of a text is that text.** -/
theorem decodeUtf8_toUTF8 (s : String) : decodeUtf8 s.toUTF8.data.toList = .ok s := by
  have hbytes : s.toUTF8.data.toList = s.toList.flatMap String.utf8EncodeChar := by
    rw [String.toUTF8, ← String.utf8Encode_toList, List.utf8Encode, List.toList_data_toByteArray]
  have hfrom (cs : List Char) (start : Nat) (done : List Char) :
      decodeFrom start done (cs.flatMap String.utf8EncodeChar) = .ok (done.reverse ++ cs) := by
    induction cs generalizing start done with
    | nil => simp [decodeFrom]
    | cons c cs ih =>
      obtain ⟨next, hnext⟩ := decodeFrom_utf8EncodeChar c start done (cs.flatMap String.utf8EncodeChar)
      rw [List.flatMap_cons, hnext, ih, List.reverse_cons, List.append_assoc]
      rfl
  rw [decodeUtf8, hbytes, hfrom]
  exact congrArg Except.ok String.ofList_toList

end Text
end Shank
