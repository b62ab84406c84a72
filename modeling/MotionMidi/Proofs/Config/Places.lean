import MotionMidi.Proofs.Config.Grammar
import MotionMidi.Proofs.Config.Lines

/-!
# The places of words

The tokens of a text are its maximal runs of characters other than blanks, in order, each with the
number of bytes in front of it.

## Main definitions

- `Apart` — no word runs across the seam of two texts
- `StandsAt` — a word, and the bytes in front of it

Main statements: `Token.scanFrom_append`, `Token.exists_mem_scan_iff`, `Token.pairwise_scan`,
`Token.starting?_eq_some_iff`.
-/

namespace MotionMidi

/-! ## Bytes -/

theorem byteLength_pos {text : List Char} (h : text ≠ []) : 0 < byteLength text := by
  obtain ⟨c, text, rfl⟩ := List.exists_cons_of_ne_nil h
  exact Nat.add_pos_left c.utf8Size_pos _

/-- A text can be cut in one way only after so many bytes. -/
theorem eq_of_byteLength {front front' back back' : List Char}
    (h : front ++ back = front' ++ back') (hlength : byteLength front = byteLength front') :
    front = front' ∧ back = back' := by
  rcases List.append_eq_append_iff.mp h with ⟨more, rfl, rfl⟩ | ⟨more, rfl, rfl⟩
  all_goals
    have hmore : more = [] := by
      by_contra hne
      have := byteLength_pos hne
      rw [byteLength_append] at hlength
      omega
    rw [hmore]
    simp

/-- No word runs across the seam of two texts. -/
def Apart (front back : List Char) : Prop :=
  (∀ c ∈ front.getLast?, isBlank c) ∨ ∀ c ∈ back.head?, isBlank c

theorem apart_nil (back : List Char) : Apart [] back :=
  .inl nofun

/-- A word of a text, which does not go on to either side, with so many bytes in front of it. -/
def StandsAt (text : List Char) (position : Nat) (word : List Char) : Prop :=
  ∃ front back, text = front ++ (word ++ back) ∧ byteLength front = position ∧ word ≠ [] ∧
    (∀ c ∈ word, isBlank c = false) ∧ (∀ c ∈ front.getLast?, isBlank c) ∧
    ∀ c ∈ back.head?, isBlank c

theorem StandsAt.lt {text word : List Char} {position : Nat} (h : StandsAt text position word) :
    position < byteLength text := by
  obtain ⟨front, back, rfl, rfl, hne, -⟩ := h
  have := byteLength_pos hne
  simp only [byteLength_append]
  omega

namespace Token

theorem takeWhile_append_apart {front back : List Char}
    (h : (∀ c ∈ front, isBlank c = false) → ∀ c ∈ back.head?, isBlank c) :
    (front ++ back).takeWhile (!isBlank ·) = front.takeWhile (!isBlank ·) ∧
      (front ++ back).dropWhile (!isBlank ·) = front.dropWhile (!isBlank ·) ++ back := by
  induction front with
  | nil =>
    cases back with
    | nil => exact ⟨rfl, rfl⟩
    | cons c back => simp [h nofun c rfl]
  | cons c front ih =>
    rw [List.cons_append, List.takeWhile_cons, List.takeWhile_cons, List.dropWhile_cons,
      List.dropWhile_cons]
    split
    case isTrue hplain =>
      obtain ⟨htake, hdrop⟩ := ih fun hfront => h (by
        rw [List.forall_mem_cons]
        exact ⟨by simpa using hplain, hfront⟩)
      exact ⟨congrArg _ htake, hdrop⟩
    case isFalse => exact ⟨rfl, rfl⟩

/-- The words of a text in two parts are those of its parts. -/
theorem scanFrom_append (position : Nat) (startsLine : Bool) (front : List Char) :
    ∃ startsLine', ∀ back, Apart front back →
      scanFrom position startsLine (front ++ back) = scanFrom position startsLine front ++
        scanFrom (position + byteLength front) startsLine' back := by
  induction position, startsLine, front using scanFrom.induct with
  | case1 position startsLine => exact ⟨startsLine, fun back _ => by simp⟩
  | case2 position startsLine c front hblank ih =>
    obtain ⟨startsLine', hback⟩ := ih
    refine ⟨startsLine', fun back hapart => ?_⟩
    have hapart' : Apart front back := by
      refine hapart.imp_left fun hlast d hd => hlast d ?_
      rw [Option.mem_def, List.getLast?_cons, Option.mem_def.mp hd]
      rfl
    rw [List.cons_append, scanFrom_blank hblank, scanFrom_blank hblank, hback back hapart',
      byteLength, Nat.add_assoc]
  | case3 position startsLine c front hplain word ih =>
    obtain ⟨startsLine', hback⟩ := ih
    refine ⟨startsLine', fun back hapart => ?_⟩
    have hsplit : word ++ front.dropWhile (!isBlank ·) = front := List.takeWhile_append_dropWhile
    -- If the front ends with this word, then the back starts with a blank.
    have hword : (∀ d ∈ front, isBlank d = false) → ∀ d ∈ back.head?, isBlank d := by
      intro hfront
      refine hapart.resolve_left fun hlast => hplain ?_
      have hall : ∀ d ∈ c :: front, isBlank d = false := by
        rw [List.forall_mem_cons]
        exact ⟨by simpa using hplain, hfront⟩
      have hend := hlast _ (List.getLast?_eq_some_getLast (List.cons_ne_nil c front))
      rw [hall _ (List.getLast_mem _)] at hend
      cases hend
    have hapart' : Apart (front.dropWhile (!isBlank ·)) back := by
      cases hrest : front.dropWhile (!isBlank ·) with
      | nil => exact apart_nil back
      | cons d rest =>
        refine hapart.imp_left fun hlast e he => hlast e ?_
        rw [← hsplit, hrest, Option.mem_def, List.getLast?_cons, List.getLast?_append_of_ne_nil _
          (List.cons_ne_nil d rest), Option.mem_def.mp he]
        rfl
    obtain ⟨htake, hdrop⟩ := takeWhile_append_apart hword
    have hlength : byteLength (c :: front) =
        byteLength (c :: word) + byteLength (front.dropWhile (!isBlank ·)) := by
      rw [← byteLength_append, List.cons_append, hsplit]
    rw [List.cons_append, scanFrom, scanFrom, if_neg hplain, if_neg hplain]
    simp only [htake, hdrop, hlength, ← Nat.add_assoc, List.cons_append]
    exact congrArg _ (hback back hapart')

/-- Every token stands where it says. -/
theorem standsAt_of_mem_scanFrom {position : Nat} {startsLine : Bool} {text : List Char}
    {token : Token} (h : token ∈ scanFrom position startsLine text) {front : List Char}
    (hposition : byteLength front = position) (hapart : Apart front text) :
    StandsAt (front ++ text) token.position token.chars := by
  induction position, startsLine, text using scanFrom.induct generalizing front with
  | case1 => simp at h
  | case2 position startsLine c text hblank ih =>
    rw [scanFrom_blank hblank] at h
    have hnext : StandsAt ((front ++ [c]) ++ text) token.position token.chars :=
      ih h (by simp [hposition]) (.inl (by simpa using hblank))
    rwa [List.append_assoc, List.singleton_append] at hnext
  | case3 position startsLine c text hplain word ih =>
    rw [scanFrom, if_neg hplain] at h
    rcases List.mem_cons.mp h with rfl | h
    · exact ⟨front, _, congrArg _ (Grammar.word_append c text).symm, hposition,
        List.cons_ne_nil _ _, Grammar.isBlank_of_mem_word (by simpa using hplain),
        hapart.resolve_right fun hhead => hplain (hhead c rfl),
        fun d hd => Grammar.of_mem_head?_dropWhile hd⟩
    · rw [← Grammar.word_append c text, ← List.append_assoc]
      refine ih h ?_ (.inr fun d hd => Grammar.of_mem_head?_dropWhile hd)
      rw [byteLength_append, hposition]

/-- The tokens of a text are its words. -/
theorem exists_mem_scan_iff {text : List Char} {position : Nat} {word : List Char} :
    (∃ token ∈ scan text, token.position = position ∧ token.chars = word) ↔
      StandsAt text position word := by
  constructor
  · rintro ⟨token, htoken, rfl, rfl⟩
    exact standsAt_of_mem_scanFrom htoken rfl (apart_nil text)
  · rintro ⟨front, back, rfl, rfl, hne, hplain, hfront, hback⟩
    obtain ⟨first, rest, rfl⟩ := List.exists_cons_of_ne_nil hne
    obtain ⟨startsLine, happend⟩ := scanFrom_append 0 false front
    have hscan : scan (front ++ (first :: rest ++ back)) = scan front ++
        ⟨0 + byteLength front, startsLine, first, rest⟩ ::
          scanFrom (0 + byteLength front + byteLength (first :: rest)) false back := by
      rw [scan, scan, happend _ (.inl hfront)]
      exact congrArg _ (scanFrom_run _ _ hplain hback)
    refine ⟨⟨0 + byteLength front, startsLine, first, rest⟩, ?_, Nat.zero_add _, rfl⟩
    rw [hscan]
    exact List.mem_append_right _ (List.mem_cons_self ..)

/-- There is a byte for every word at least. -/
theorem length_scanFrom_le (position : Nat) (startsLine : Bool) (text : List Char) :
    (scanFrom position startsLine text).length ≤ byteLength text := by
  induction position, startsLine, text using scanFrom.induct with
  | case1 => simp
  | case2 position startsLine c text hblank ih =>
    rw [scanFrom_blank hblank, byteLength_cons]
    omega
  | case3 position startsLine c text hplain word ih =>
    have hpos := byteLength_pos (List.cons_ne_nil c word)
    rw [scanFrom, if_neg hplain, List.length_cons, ← Grammar.word_append c text,
      byteLength_append]
    change (scanFrom (position + byteLength (c :: word)) false _).length + 1 ≤
      byteLength (c :: word) + _
    omega

theorem le_position {position : Nat} {startsLine : Bool} {text : List Char} {token : Token}
    (h : token ∈ scanFrom position startsLine text) : position ≤ token.position := by
  induction position, startsLine, text using scanFrom.induct with
  | case1 => simp at h
  | case2 position startsLine c text hblank ih =>
    rw [scanFrom_blank hblank] at h
    have := ih h
    omega
  | case3 position startsLine c text hplain word ih =>
    rw [scanFrom, if_neg hplain] at h
    rcases List.mem_cons.mp h with rfl | h
    · exact Nat.le_refl _
    · have := ih h
      omega

/-- The places of the tokens ascend. -/
theorem pairwise_scanFrom (position : Nat) (startsLine : Bool) (text : List Char) :
    (scanFrom position startsLine text).Pairwise (·.position < ·.position) := by
  induction position, startsLine, text using scanFrom.induct with
  | case1 => simp
  | case2 position startsLine c text hblank ih =>
    rw [scanFrom_blank hblank]
    exact ih
  | case3 position startsLine c text hplain word ih =>
    rw [scanFrom, if_neg hplain]
    refine .cons (fun token htoken => ?_) ih
    have hle := le_position htoken
    have hpos := byteLength_pos (List.cons_ne_nil c word)
    exact Nat.lt_of_lt_of_le (Nat.lt_add_of_pos_right hpos) hle

theorem pairwise_scan (text : List Char) : (scan text).Pairwise (·.position < ·.position) :=
  pairwise_scanFrom 0 false text

theorem nodup_scan (text : List Char) : (scan text).Nodup :=
  (pairwise_scan text).imp fun hlt heq => Nat.ne_of_lt hlt (congrArg position heq)

/-- A token that stands where a text starts is the first one of that text. -/
theorem scanFrom_of_position {position : Nat} {startsLine : Bool} {text : List Char} {token : Token}
    (h : token ∈ scanFrom position startsLine text) (hposition : token.position = position) :
    token.startsLine = startsLine ∧
      ∃ rest, ∀ flag, scanFrom position flag text = { token with startsLine := flag } :: rest := by
  cases text with
  | nil => simp at h
  | cons c text =>
    rw [scanFrom] at h
    split at h
    case isTrue =>
      have hle := le_position h
      have hpos := c.utf8Size_pos
      omega
    case isFalse hplain =>
      rcases List.mem_cons.mp h with rfl | h
      · exact ⟨rfl, _, fun flag => by rw [scanFrom, if_neg hplain]⟩
      · have hle := le_position h
        have hpos := byteLength_pos (List.cons_ne_nil c (text.takeWhile (!isBlank ·)))
        omega

/-- Tokens are told apart by their places. -/
theorem eq_of_position {text : List Char} {token token' : Token} (h : token ∈ scan text)
    (h' : token' ∈ scan text) (hposition : token.position = token'.position) : token = token' := by
  have hnodup : ((scan text).map Token.position).Nodup :=
    List.pairwise_map.mpr ((pairwise_scan text).imp Nat.ne_of_lt)
  exact List.inj_on_of_nodup_map hnodup h h' hposition

theorem starting?_eq_some_iff {text : List Char} {position : Nat} {token : Token} :
    starting? text position = some token ↔ token ∈ scan text ∧ token.position = position := by
  rw [starting?]
  constructor
  · intro h
    exact ⟨List.mem_of_find?_eq_some h, by simpa using List.find?_some h⟩
  · rintro ⟨htoken, rfl⟩
    cases hfind : (scan text).find? (·.position = token.position) with
    | none => simpa using List.find?_eq_none.mp hfind token htoken
    | some other =>
      have hposition : other.position = token.position := by simpa using List.find?_some hfind
      rw [eq_of_position (List.mem_of_find?_eq_some hfind) htoken hposition]

end Token

end MotionMidi
