/-!
# Text as bytes

## Main definitions

- `Utf8.encode` — the bytes of a text
- `Utf8.decode?` — the text that some bytes encode

Main statements: `Utf8.decode?_eq_some_iff`, bytes decode to a text exactly if they encode it;
`Utf8.encodeChar_cases`, a character is one low byte or some high ones.
-/

namespace MotionMidi.Utf8

/-- The bytes that encode a text. -/
def encode (text : String) : List UInt8 :=
  text.toByteArray.data.toList

/-- The text that some bytes encode, if they encode one. -/
def decode? (bytes : List UInt8) : Option String :=
  String.fromUTF8? ⟨bytes.toArray⟩

@[simp] theorem decode?_encode (text : String) : decode? (encode text) = some text :=
  dif_pos text.isValidUTF8

theorem eq_encode_of_decode? {bytes : List UInt8} {text : String} (h : decode? bytes = some text) :
    bytes = encode text := by
  simp only [decode?, String.fromUTF8?] at h
  split at h
  · cases h
    simp [encode, String.fromUTF8]
  · cases h

/-- Bytes decode to a text exactly if they encode it. -/
theorem decode?_eq_some_iff {bytes : List UInt8} {text : String} :
    decode? bytes = some text ↔ bytes = encode text :=
  ⟨eq_encode_of_decode?, fun h => h ▸ decode?_encode text⟩

@[simp] theorem length_encode (text : String) : (encode text).length = text.utf8ByteSize :=
  rfl

/-! ## Characters -/

theorem encode_ofList (text : List Char) :
    encode (String.ofList text) = text.flatMap String.utf8EncodeChar := by
  rw [encode, String.toByteArray_ofList, List.utf8Encode]
  simp [List.data_toByteArray]

theorem encode_eq_flatMap (text : String) :
    encode text = text.toList.flatMap String.utf8EncodeChar := by
  rw [← encode_ofList, String.ofList_toList]

/-- A character is one low byte, or some high ones. -/
theorem encodeChar_cases (c : Char) :
    (c.toNat < 128 ∧ String.utf8EncodeChar c = [UInt8.ofNat c.toNat]) ∨
      (128 ≤ c.toNat ∧ ∀ byte ∈ String.utf8EncodeChar c, 128 ≤ byte.toNat) := by
  have hval : c.val.toNat = c.toNat := rfl
  unfold String.utf8EncodeChar
  dsimp only
  split
  case isTrue h => exact .inl ⟨by omega, rfl⟩
  case isFalse h =>
    refine .inr ⟨by omega, ?_⟩
    split
    · simp
      omega
    split
    · simp
      omega
    · simp
      omega

end MotionMidi.Utf8
