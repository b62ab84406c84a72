import MotionMidi.Utf8
import MotionMidi.Proofs.Config.Places

/-!
# Slices of a text

A text is cut at byte offsets, and looked at byte by byte. A cut that is out of bounds or that goes
through the middle of a character has no result.

## Main definitions

- `bytes` — the bytes of a text
- `byteAt?` — the byte at an offset, taken for a character, which is right for ASCII
- `dropBytes?`, `slice?` — the text behind a byte offset, and the text between two of them
- `skipBlanks`, `seek` — the offset behind the blanks, and that of the next character of a kind

Main statements: `byteAt?_head`, `slice?_append`, `skipBlanks_append`, `seek_eq`.
-/

namespace MotionMidi

/-! ## Bytes -/

/-- The bytes of a text. -/
def bytes (text : List Char) : List UInt8 :=
  text.flatMap String.utf8EncodeChar

@[simp] theorem bytes_append (front back : List Char) :
    bytes (front ++ back) = bytes front ++ bytes back :=
  List.flatMap_append

@[simp] theorem length_bytes (text : List Char) : (bytes text).length = byteLength text := by
  induction text with
  | nil => rfl
  | cons c text ih => simp_all [bytes]

/-- A byte taken for a character, which is right for ASCII. -/
def byteChar (byte : UInt8) : Char :=
  Char.ofNat byte.toNat

@[simp] theorem toNat_byteChar (byte : UInt8) : (byteChar byte).toNat = byte.toNat := by
  have h : byte.toNat < 0xd800 := Nat.lt_trans byte.toNat_lt (by decide)
  rw [byteChar, Char.ofNat, dif_pos (Or.inl h)]
  rfl

/-- The byte at an offset, taken for a character. -/
def byteAt? (text : List Char) (offset : Nat) : Option Char :=
  (bytes text)[offset]?.map byteChar

theorem lt_of_byteAt? {text : List Char} {offset : Nat} {c : Char}
    (h : byteAt? text offset = some c) : offset < byteLength text := by
  obtain ⟨byte, hbyte, -⟩ := Option.map_eq_some_iff.mp h
  rw [← length_bytes]
  exact (List.getElem?_eq_some_iff.mp hbyte).1

@[simp] theorem byteAt?_nil (offset : Nat) : byteAt? [] offset = none :=
  rfl

@[simp] theorem byteAt?_append (front back : List Char) :
    byteAt? (front ++ back) (byteLength front) = byteAt? back 0 := by
  rw [byteAt?, byteAt?, bytes_append, ← length_bytes, List.getElem?_append_right (Nat.le_refl _),
    Nat.sub_self]

@[simp] theorem byteAt?_length (text : List Char) : byteAt? text (byteLength text) = none := by
  simpa using byteAt?_append text []

/-- The first byte of a text is its first character, or neither of them is ASCII. -/
theorem byteAt?_head (c : Char) (text : List Char) :
    ∃ d, byteAt? (c :: text) 0 = some d ∧ (d = c ∨ 128 ≤ c.toNat ∧ 128 ≤ d.toNat) := by
  rw [byteAt?, bytes, List.flatMap_cons]
  rcases Utf8.encodeChar_cases c with ⟨hascii, hbytes⟩ | ⟨hother, hbytes⟩
  · refine ⟨c, ?_, .inl rfl⟩
    rw [hbytes, List.singleton_append, List.getElem?_cons_zero, Option.map_some, byteChar,
      UInt8.toNat_ofNat', Nat.mod_eq_of_lt (by omega)]
    exact congrArg some (Char.ofNat_toNat c)
  · obtain ⟨byte, others, hcons⟩ :=
      List.exists_cons_of_ne_nil (String.utf8EncodeChar_ne_nil (c := c))
    refine ⟨byteChar byte, by rw [hcons]; rfl, .inr ⟨hother, ?_⟩⟩
    rw [toNat_byteChar]
    exact hbytes byte (by rw [hcons]; exact List.mem_cons_self ..)

/-- A test that only ASCII characters pass comes out the same for the first byte. -/
theorem byteAt?_test {test : Char → Bool} (htest : ∀ c, 128 ≤ c.toNat → test c = false) (c : Char)
    (text : List Char) : ∃ d, byteAt? (c :: text) 0 = some d ∧ test d = test c := by
  obtain ⟨d, hd, rfl | ⟨hc, hother⟩⟩ := byteAt?_head c text
  · exact ⟨d, hd, rfl⟩
  · exact ⟨d, hd, by rw [htest d hother, htest c hc]⟩

/-- So it does if all bytes of a text are tested. -/
theorem all_bytes {test : Char → Bool} (htest : ∀ c, 128 ≤ c.toNat → test c = false)
    (text : List Char) : (bytes text).all (fun byte => test (byteChar byte)) = text.all test := by
  induction text with
  | nil => rfl
  | cons c text ih =>
    have hchar : (String.utf8EncodeChar c).all (fun byte => test (byteChar byte)) = test c := by
      rcases Utf8.encodeChar_cases c with ⟨hascii, hbytes⟩ | ⟨hother, hbytes⟩
      · have hbyte : byteChar (UInt8.ofNat c.toNat) = c := by
          rw [byteChar, UInt8.toNat_ofNat', Nat.mod_eq_of_lt (by omega)]
          exact Char.ofNat_toNat c
        rw [hbytes, List.all_cons, List.all_nil, hbyte, Bool.and_true]
      · obtain ⟨byte, others, hcons⟩ :=
          List.exists_cons_of_ne_nil (String.utf8EncodeChar_ne_nil (c := c))
        have hbyte : 128 ≤ (byteChar byte).toNat := by
          rw [toNat_byteChar]
          exact hbytes byte (by rw [hcons]; exact List.mem_cons_self ..)
        rw [hcons, List.all_cons, htest _ hbyte, htest c hother, Bool.false_and]
    rw [bytes, List.flatMap_cons, List.all_append, hchar, List.all_cons]
    exact congrArg _ ih

theorem isDigit_of_le {c : Char} (h : 128 ≤ c.toNat) : c.isDigit = false := by
  refine Bool.eq_false_iff.mpr fun hdigit => ?_
  have hnine := (Char.isDigit_iff_toNat.mp hdigit).2
  have hbound : '9'.toNat < 128 := by decide
  omega

theorem isAlpha_of_le {c : Char} (h : 128 ≤ c.toNat) : c.isAlpha = false := by
  refine Bool.eq_false_iff.mpr fun halpha => ?_
  rcases Bool.or_eq_true_iff.mp halpha with hupper | hlower
  · have hle : c.toNat ≤ 'Z'.toNat := (of_decide_eq_true hupper).2
    exact absurd (h.trans hle) (by decide)
  · have hle : c.toNat ≤ 'z'.toNat := of_decide_eq_true (Bool.and_eq_true_iff.mp hlower).2
    exact absurd (h.trans hle) (by decide)

theorem toLower_of_le {c : Char} (h : 128 ≤ c.toNat) : c.toLower = c := by
  unfold Char.toLower
  split
  case isTrue hupper =>
    have hle : c.toNat ≤ 'Z'.toNat := hupper.2
    exact absurd (h.trans hle) (by decide)
  case isFalse => rfl

theorem isBlank_of_le {c : Char} (h : 128 ≤ c.toNat) : isBlank c = false := by
  refine Bool.eq_false_iff.mpr fun hblank => ?_
  simp only [isBlank, Bool.or_eq_true, decide_eq_true_eq] at hblank
  rcases hblank with (((rfl | rfl) | rfl) | rfl) | rfl <;> exact absurd h (by decide)

theorem utf8Size_of_isBlank {c : Char} (h : isBlank c) : c.utf8Size = 1 := by
  simp only [isBlank, Bool.or_eq_true, decide_eq_true_eq] at h
  rcases h with (((rfl | rfl) | rfl) | rfl) | rfl <;> rfl

/-! ## Slices -/

/-- The text behind so many bytes, unless the text ends earlier or a character would be cut in
two. -/
def dropBytes? : List Char → Nat → Option (List Char)
  | text, 0 => some text
  | [], _ + 1 => none
  | c :: text, n + 1 => if c.utf8Size ≤ n + 1 then dropBytes? text (n + 1 - c.utf8Size) else none

/-- The first so many bytes of a text, unless the text ends earlier or a character would be cut in
two. -/
def takeBytes? : List Char → Nat → Option (List Char)
  | _, 0 => some []
  | [], _ + 1 => none
  | c :: text, n + 1 =>
    if c.utf8Size ≤ n + 1 then (takeBytes? text (n + 1 - c.utf8Size)).map (c :: ·) else none

/-- The text between two byte offsets. -/
def slice? (text : List Char) (start stop : Nat) : Option (List Char) :=
  if start ≤ stop then (dropBytes? text start).bind (takeBytes? · (stop - start)) else none

theorem dropBytes?_cons (c : Char) (text : List Char) (n : Nat) :
    dropBytes? (c :: text) (c.utf8Size + n) = dropBytes? text n := by
  have hpos := c.utf8Size_pos
  cases hsize : c.utf8Size with
  | zero => omega
  | succ size => simp [Nat.succ_add, dropBytes?, hsize]

theorem takeBytes?_cons (c : Char) (text : List Char) (n : Nat) :
    takeBytes? (c :: text) (c.utf8Size + n) = (takeBytes? text n).map (c :: ·) := by
  have hpos := c.utf8Size_pos
  cases hsize : c.utf8Size with
  | zero => omega
  | succ size => simp [Nat.succ_add, takeBytes?, hsize]

@[simp] theorem dropBytes?_append (front back : List Char) :
    dropBytes? (front ++ back) (byteLength front) = some back := by
  induction front with
  | nil => cases back <;> rfl
  | cons c front ih => simp [dropBytes?_cons, ih]

@[simp] theorem dropBytes?_length (text : List Char) :
    dropBytes? text (byteLength text) = some [] := by
  simpa using dropBytes?_append text []

@[simp] theorem takeBytes?_append (front back : List Char) :
    takeBytes? (front ++ back) (byteLength front) = some front := by
  induction front with
  | nil => cases back <;> rfl
  | cons c front ih => simp [takeBytes?_cons, ih]

@[simp] theorem slice?_append (front middle back : List Char) :
    slice? (front ++ (middle ++ back)) (byteLength front) (byteLength front + byteLength middle) =
      some middle := by
  simp [slice?]

/-! ## Searches -/

/-- The offset of the next byte that is not a blank. -/
def skipBlanks (text : List Char) (offset : Nat) : Nat :=
  match _h : byteAt? text offset with
  | some c => if isBlank c then skipBlanks text (offset + 1) else offset
  | none => offset
termination_by byteLength text - offset
decreasing_by
  have := lt_of_byteAt? _h
  omega

/-- The byte offset of the first character that passes a test. -/
def findByte? (test : Char → Bool) : List Char → Option Nat
  | [] => none
  | c :: text => if test c then some 0 else (findByte? test text).map (c.utf8Size + ·)

/-- The offset of the first character from an offset on that passes a test, or that of the end. -/
def seek (test : Char → Bool) (text rest : List Char) (offset : Nat) : Nat :=
  match findByte? test rest with
  | some n => offset + n
  | none => byteLength text

theorem skipBlanks_blank {text : List Char} {offset : Nat} {c : Char}
    (h : byteAt? text offset = some c) (hblank : isBlank c) :
    skipBlanks text offset = skipBlanks text (offset + 1) := by
  rw [skipBlanks]
  split
  case h_1 other hother =>
    cases h.symm.trans hother
    rw [if_pos hblank]
  case h_2 hnone => cases h.symm.trans hnone

theorem skipBlanks_other {text : List Char} {offset : Nat}
    (h : ∀ c ∈ byteAt? text offset, isBlank c = false) : skipBlanks text offset = offset := by
  rw [skipBlanks]
  split
  case h_1 c hc => rw [if_neg (by rw [h c hc]; exact Bool.false_ne_true)]
  case h_2 => rfl

theorem skipBlanks_append (front blanks back : List Char) (hblanks : ∀ c ∈ blanks, isBlank c)
    (hback : ∀ c ∈ back.head?, isBlank c = false) :
    skipBlanks (front ++ (blanks ++ back)) (byteLength front) =
      byteLength front + byteLength blanks := by
  induction blanks generalizing front with
  | nil =>
    refine skipBlanks_other fun c hc => ?_
    rw [List.nil_append, byteAt?_append] at hc
    cases back with
    | nil => cases hc
    | cons d back =>
      obtain ⟨e, he, htest⟩ := byteAt?_test (fun _ => isBlank_of_le) d back
      cases he.symm.trans hc
      rw [htest, hback d rfl]
  | cons c blanks ih =>
    rw [List.forall_mem_cons] at hblanks
    have hbyte : byteAt? (front ++ (c :: blanks ++ back)) (byteLength front) = some c := by
      rw [byteAt?_append]
      obtain ⟨d, hd, rfl | ⟨hother, -⟩⟩ := byteAt?_head c (blanks ++ back)
      · exact hd
      · rw [isBlank_of_le hother] at hblanks
        cases hblanks.1
    have hnext := ih (front ++ [c]) hblanks.2
    have hsize : byteLength (front ++ [c]) = byteLength front + 1 := by
      simp [utf8Size_of_isBlank hblanks.1]
    rw [List.append_assoc, List.singleton_append, hsize] at hnext
    rw [skipBlanks_blank hbyte hblanks.1, List.cons_append, hnext, byteLength,
      utf8Size_of_isBlank hblanks.1, Nat.add_assoc]

theorem findByte?_cases (test : Char → Bool) (text : List Char) :
    findByte? test text = some (byteLength (text.takeWhile (!test ·))) ∨
      findByte? test text = none ∧ text.takeWhile (!test ·) = text := by
  induction text with
  | nil => exact .inr ⟨rfl, rfl⟩
  | cons c text ih =>
    rw [findByte?, List.takeWhile_cons]
    by_cases hc : test c
    · simp [hc]
    · rcases ih with hfound | ⟨hnone, hall⟩
      · simp [hc, hfound]
      · simp [hc, hnone, hall]

theorem seek_eq (test : Char → Bool) (front back : List Char) :
    seek test (front ++ back) back (byteLength front) =
      byteLength front + byteLength (back.takeWhile (!test ·)) := by
  rw [seek]
  rcases findByte?_cases test back with hfound | ⟨hnone, hall⟩
  · rw [hfound]
  · simp [hnone, hall]

end MotionMidi
