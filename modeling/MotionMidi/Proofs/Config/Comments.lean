import MotionMidi.Proofs.Config.Places
import MotionMidi.Proofs.Config.Spacing

/-!
# Comments

A comment may be put in front of any command of a text that is accepted, or behind the last one. It
changes nothing that is read.

## Main definitions

- `Commentable` — a comment may be put between the two parts of a text
- `lineEnds` — what may end the line of a comment

## Design notes

A comment is recognized where a command is expected, so the words in front of it have to be those of
some sentences. They still are if other words follow, as long as these start a line if a comment is
to end in front of them, and do not go on with a scale (`Composed.exists_split`).

Main statements: `Composed.append_comment`, `Config.parse_commented`, `Config.layout_immaterial`.
-/

namespace MotionMidi

/-- A comment may be put between the two parts of a text: the name of a command comes next, or
nothing does and no word ends there. -/
inductive Commentable : List Char → List Char → Prop where
  | command {front back : List Char} {sentences : List Sentence} {sentence : Sentence}
      (composed : Composed (Token.scan (front ++ back)) sentences) (mem : sentence ∈ sentences)
      (position : sentence.name.position = byteLength front) : Commentable front back
  | ending {front : List Char} (blank : ∀ c ∈ front.getLast?, isBlank c) : Commentable front []

/-- The characters that may end a line. -/
def lineEnds : List (List Char) :=
  [['\n'], ['\r'], ['\r', '\n']]

namespace Token

/-! ## The words of a comment -/

theorem startsLine_eq_false {position : Nat} {text : List Char}
    (h : ∀ c ∈ text, isLineEnd c = false) :
    ∀ token ∈ scanFrom position false text, token.startsLine = false := by
  have hline : text.dropWhile (!isLineEnd ·) = [] := by
    rw [List.dropWhile_eq_nil_iff]
    simpa using h
  obtain ⟨startsLine, hbehind⟩ := dropWhile_scanFrom position text
  rw [hline, scanFrom, List.dropWhile_eq_nil_iff] at hbehind
  simpa using hbehind

theorem scanFrom_comment (position : Nat) (startsLine : Bool) {body : List Char}
    (h : ∀ c ∈ body, isLineEnd c = false) :
    ∃ hash words, scanFrom position startsLine ('#' :: body) = hash :: words ∧ hash.first = '#' ∧
      hash.startsLine = startsLine ∧ ∀ word ∈ words, word.startsLine = false := by
  rw [scanFrom, if_neg (by decide)]
  refine ⟨_, _, rfl, rfl, rfl, startsLine_eq_false fun c hc => h c ?_⟩
  exact (List.dropWhile_suffix _).subset hc

/-- After a line end, blanks do not matter. -/
theorem outline_blanks (position position' : Nat) {blanks : List Char}
    (h : ∀ c ∈ blanks, isBlank c) (back : List Char) :
    (scanFrom position true (blanks ++ back)).map outline =
      (scanFrom position' true back).map outline := by
  induction blanks generalizing position with
  | nil => exact outline_scanFrom _ _ _ _
  | cons c blanks ih =>
    rw [List.forall_mem_cons] at h
    rw [List.cons_append, scanFrom_blank h.1]
    exact ih _ h.2

/-- A comment is put between two parts of a text. -/
theorem outline_comment {front body terminator : List Char} (back : List Char)
    (hfront : ∀ c ∈ front.getLast?, isBlank c) (hbody : ∀ c ∈ body, isLineEnd c = false)
    (hterminator : terminator ∈ lineEnds) :
    ∃ hash words, hash.first = '#' ∧ (∀ word ∈ words, word.startsLine = false) ∧
      scan (front ++ back) = scan front ++ scanFrom (byteLength front) hash.startsLine back ∧
      (scan (front ++ '#' :: (body ++ (terminator ++ back)))).map outline =
        (scan front ++ hash :: (words ++ scanFrom (byteLength front) true back)).map outline := by
  obtain ⟨c, blanks, rfl, hend, hblanks⟩ : ∃ c blanks, terminator = c :: blanks ∧ isLineEnd c ∧
      ∀ c ∈ blanks, isBlank c := by
    simp only [lineEnds, List.mem_cons, List.not_mem_nil, or_false] at hterminator
    rcases hterminator with rfl | rfl | rfl
    · exact ⟨_, _, rfl, rfl, nofun⟩
    · exact ⟨_, _, rfl, rfl, nofun⟩
    · exact ⟨_, _, rfl, rfl, by simp [isBlank]⟩
  obtain ⟨startsLine, happend⟩ := scanFrom_append 0 false front
  rw [Nat.zero_add] at happend
  obtain ⟨hash, words, hcomment, hfirst, rfl, hwords⟩ :=
    scanFrom_comment (byteLength front) startsLine hbody
  refine ⟨hash, words, hfirst, hwords, happend back (.inl hfront), ?_⟩
  have hsplit : front ++ '#' :: (body ++ (c :: blanks ++ back)) =
      (front ++ '#' :: body) ++ c :: (blanks ++ back) := by
    simp
  rw [hsplit, scan, outline_append_lineEnd 0 0 false _ hend, happend _ (.inl hfront), hcomment,
    outline_blanks 0 (byteLength front) hblanks, scan, ← List.map_append, List.append_assoc,
    List.cons_append]

end Token

/-! ## Sentences -/

namespace Composed

open Command

variable {tokens : List Token} {sentences : List Sentence}

/-- Behind a comment a line starts, and what starts it may be replaced. -/
theorem dropWhile_comment {rest front others others' : List Token} {token token' : Token}
    (h : rest.dropWhile (!·.startsLine) = front ++ token :: others)
    (hline : token'.startsLine = token.startsLine) :
    (rest.takeWhile (!·.startsLine) ++ (front ++ token' :: others')).dropWhile (!·.startsLine) =
      front ++ token' :: others' := by
  have hstarts : ∀ first ∈ (front ++ token' :: others').head?, first.startsLine = true := by
    have hhead := List.head?_dropWhile_not (!·.startsLine) rest
    rw [h] at hhead
    cases front with
    | nil =>
      rintro _ ⟨⟩
      rw [hline]
      simpa using hhead
    | cons first front =>
      rintro _ ⟨⟩
      simpa using hhead
  rw [List.dropWhile_append_of_pos fun word hword =>
    List.mem_takeWhile_imp (p := fun word : Token => !word.startsLine) hword]
  generalize front ++ token' :: others' = behind at hstarts ⊢
  cases behind with
  | nil => rfl
  | cons first behind => rw [List.dropWhile_cons_of_neg (by simp [hstarts first rfl])]

/-- A scale ends where something takes the place of a word that ended it. -/
theorem ends_append {letter : Char} {front others others' : List Token} {token token' : Token}
    (h : Ends letter (front ++ token :: others)) (hdigit : token'.first.isDigit = false) :
    Ends letter (front ++ token' :: others') := by
  intro hscale
  cases front with
  | nil =>
    rintro _ ⟨⟩
    exact hdigit
  | cons first front => exact h hscale

/-- The first words of a text are those of some sentences, whatever follows in place of a sentence
that starts with a name. -/
theorem exists_split (h : Composed tokens sentences) {sentence : Sentence}
    (hmem : sentence ∈ sentences) :
    ∃ front rest before after, tokens = front ++ sentence.name :: (sentence.arguments ++ rest) ∧
      sentences = before ++ sentence :: after ∧ Ends sentence.name.first rest ∧
      Composed rest after ∧
      ∀ {token others sentences'}, token.startsLine = sentence.name.startsLine →
        token.first.isDigit = false → Composed (token :: others) sentences' →
          Composed (front ++ token :: others) (before ++ sentences') := by
  induction h with
  | done => cases hmem
  | @comment hash rest sentences hhash others ih =>
    obtain ⟨front, rest', before, after, hsplit, rfl, hends, hafter, hreplace⟩ := ih hmem
    refine ⟨hash :: (rest.takeWhile (!·.startsLine) ++ front), rest', before, after, ?_, rfl, hends,
      hafter, fun hline hdigit hothers => ?_⟩
    · rw [List.cons_append, List.append_assoc, ← hsplit, List.takeWhile_append_dropWhile]
    · rw [List.cons_append, List.append_assoc]
      refine .comment hhash ?_
      rw [dropWhile_comment hsplit hline]
      exact hreplace hline hdigit hothers
  | @sentence first rest sentences ends others ih =>
    rcases List.mem_cons.mp hmem with rfl | hmem
    · exact ⟨[], rest, [], sentences, rfl, rfl, ends, others, fun _ _ h => h⟩
    · obtain ⟨front, rest', before, after, rfl, rfl, hends, hafter, hreplace⟩ := ih hmem
      refine ⟨first.name :: (first.arguments ++ front), rest', first :: before, after, ?_, rfl,
        hends, hafter, fun hline hdigit hothers => ?_⟩
      · rw [List.cons_append, List.append_assoc]
      · rw [List.cons_append, List.append_assoc]
        exact .sentence (ends_append ends hdigit) (hreplace hline hdigit hothers)

theorem name_mem (h : Composed tokens sentences) {sentence : Sentence}
    (hmem : sentence ∈ sentences) : sentence.name ∈ tokens := by
  obtain ⟨front, rest, before, after, rfl, -⟩ := h.exists_split hmem
  exact List.mem_append_right _ (List.mem_cons_self ..)

/-- A comment in front of a sentence is passed over. -/
theorem insert_comment (h : Composed tokens sentences) {sentence : Sentence}
    (hmem : sentence ∈ sentences) {hash : Token} {words : List Token} (hhash : hash.first = '#')
    (hline : hash.startsLine = sentence.name.startsLine)
    (hwords : ∀ word ∈ words, word.startsLine = false) :
    ∃ front rest sentences', tokens = front ++ sentence.name :: rest ∧
      Composed (front ++ hash :: (words ++ { sentence.name with startsLine := true } :: rest))
        sentences' ∧ sentences'.map Sentence.command = sentences.map Sentence.command := by
  obtain ⟨front, rest, before, after, htokens, rfl, hends, hafter, hreplace⟩ :=
    h.exists_split hmem
  let moved : Sentence :=
    { sentence with name := { sentence.name with startsLine := true }, spelled := sentence.spelled }
  have hmoved : Composed (moved.name :: (moved.arguments ++ rest)) (moved :: after) :=
    .sentence hends hafter
  have hcomment : Composed (hash :: (words ++ moved.name :: (moved.arguments ++ rest)))
      (moved :: after) := by
    refine .comment hhash ?_
    rw [List.dropWhile_append_of_pos (by simpa using hwords),
      List.dropWhile_cons_of_neg (by simp [moved])]
    exact hmoved
  refine ⟨front, sentence.arguments ++ rest, before ++ moved :: after, htokens,
    hreplace hline (by rw [hhash]; rfl) hcomment, ?_⟩
  rw [List.map_append, List.map_append, List.map_cons, List.map_cons]

/-- A comment may come behind everything else. -/
theorem append_comment (h : Composed tokens sentences) {hash : Token} {words : List Token}
    (hhash : hash.first = '#') (hwords : ∀ word ∈ words, word.startsLine = false) :
    Composed (tokens ++ hash :: words) sentences := by
  have hnothing : words.dropWhile (!·.startsLine) = [] := by
    rw [List.dropWhile_eq_nil_iff]
    simpa using hwords
  have hcomment : Composed (hash :: words) [] := by
    refine .comment hhash ?_
    rw [hnothing]
    exact .done
  induction h with
  | done => exact hcomment
  | @comment token rest sentences hash' others ih =>
    rw [List.cons_append]
    refine .comment hash' ?_
    rw [List.dropWhile_append]
    split
    case isTrue hend =>
      -- The line of the first comment may go on with the second one.
      rw [List.isEmpty_iff] at hend
      rw [hend] at others ih
      cases others
      rw [List.dropWhile_cons, hnothing]
      split
      · exact .done
      · exact hcomment
    case isFalse => exact ih
  | @sentence sentence rest sentences ends others ih =>
    rw [List.cons_append, List.append_assoc]
    refine .sentence ?_ ih
    cases rest with
    | nil =>
      rintro - _ ⟨⟩
      rw [hhash]
      rfl
    | cons token rest => exact ends

end Composed

/-- No word ends where a comment may be put. -/
theorem Commentable.getLast? {front back : List Char} (h : Commentable front back) :
    ∀ c ∈ front.getLast?, isBlank c := by
  cases h with
  | ending blank => exact blank
  | @command _ _ sentence composed mem position =>
    obtain ⟨front', behind, htext, hlength, -, -, hblank, -⟩ :=
      Token.exists_mem_scan_iff.mp ⟨_, composed.name_mem mem, position, rfl⟩
    rw [(eq_of_byteLength htext hlength.symm).1]
    exact hblank

namespace Config

variable {front back body terminator : List Char} {parsed : Parsed}

/-- The words of an accepted text are still those of its sentences when a comment is put into it. -/
theorem composed_of_commentable (h : Commentable front back) {sentences : List Sentence}
    (hcomposed : Composed (Token.scan (front ++ back)) sentences)
    {hash : Token} {words : List Token} (hhash : hash.first = '#')
    (hwords : ∀ word ∈ words, word.startsLine = false)
    (hscan : Token.scan (front ++ back) =
      Token.scan front ++ Token.scanFrom (byteLength front) hash.startsLine back) :
    ∃ sentences', Composed (Token.scan front ++
        hash :: (words ++ Token.scanFrom (byteLength front) true back)) sentences' ∧
      sentences'.map Sentence.command = sentences.map Sentence.command := by
  cases h with
  | ending blank =>
    rw [List.append_nil] at hcomposed
    rw [Token.scanFrom, List.append_nil]
    exact ⟨sentences, hcomposed.append_comment hhash hwords, rfl⟩
  | @command _ sentences' sentence composed mem position =>
    obtain rfl := composed.unique hcomposed
    -- The name of the sentence is the first word behind the comment.
    have hname : sentence.name ∈ Token.scanFrom (byteLength front) hash.startsLine back := by
      have hmem := hcomposed.name_mem mem
      rw [hscan] at hmem
      refine (List.mem_append.mp hmem).resolve_left fun hfront => ?_
      have hlt := (Token.exists_mem_scan_iff.mp ⟨_, hfront, rfl, rfl⟩).lt
      omega
    obtain ⟨hline, rest, hback⟩ := Token.scanFrom_of_position hname position
    obtain ⟨before, rest', sentences, htokens, hcommented, hcommands⟩ :=
      hcomposed.insert_comment mem hhash hline.symm hwords
    have hself : { sentence.name with startsLine := hash.startsLine } = sentence.name := by
      rw [← hline]
    have hnodup := Token.nodup_scan (front ++ back)
    rw [hback, hself] at hscan
    rw [hscan, List.nodup_middle, List.nodup_cons, List.mem_append, not_or] at hnodup
    rw [hscan, List.append_cons_inj_of_notMem hnodup.1.1 hnodup.1.2] at htokens
    obtain ⟨hbefore, -, rfl⟩ := htokens
    rw [hback, hbefore]
    exact ⟨sentences, hcommented, hcommands⟩

/-- A comment changes nothing that is read. -/
theorem parse_commented {text : String} (hparse : parse text = .ok parsed)
    (htext : text.toList = front ++ back) (h : Commentable front back)
    (hbody : ∀ c ∈ body, isLineEnd c = false) (hterminator : terminator ∈ lineEnds) :
    SameOutcome (fun _ _ => True) (parse text)
      (parse (String.ofList (front ++ '#' :: (body ++ (terminator ++ back))))) := by
  obtain ⟨sentences, hcomposed, hroom, -⟩ := parse_eq_ok_iff.mp hparse
  have hread := Composed.readAll_eq_ok_iff.mpr ⟨_, hcomposed, rfl, hroom⟩
  rw [htext] at hcomposed
  obtain ⟨hash, words, hhash, hwords, hscan, houtline⟩ :=
    Token.outline_comment back h.getLast? hbody hterminator
  obtain ⟨sentences', hcomposed', hcommands⟩ :=
    composed_of_commentable h hcomposed hhash hwords hscan
  have hread' := Composed.readAll_eq_ok_iff.mpr ⟨_, hcomposed', hcommands, hroom⟩
  -- The commented text has these words, although not at the same places.
  have halike := @Command.readAll_alike _ 0 _ _ (Token.forall₂_alike_iff.mpr houtline.symm)
  rw [hread', ← hread] at halike
  refine parse_alike ?_ trivial
  rw [String.toList_ofList]
  exact halike

/-- Blanks do not matter in a text without comments, and comments do not matter between commands. -/
theorem layout_immaterial :
    (∀ {words text text'}, Laid words text.toList → Laid words text'.toList →
      (∀ word ∈ words, word.head? ≠ some '#') →
        SameOutcome (SamePlace text.toList text'.toList) (parse text) (parse text')) ∧
      ∀ {text parsed front back body terminator}, parse text = .ok parsed →
        text.toList = front ++ back → Commentable front back →
          (∀ c ∈ body, isLineEnd c = false) → terminator ∈ lineEnds →
            SameOutcome (fun _ _ => True) (parse text)
              (parse (String.ofList (front ++ '#' :: (body ++ (terminator ++ back))))) :=
  ⟨parse_laid, parse_commented⟩

/-- A word that is not understood, and a comment where a scale ends. -/
theorem layout_immaterial_around_scale :
    SameOutcome (SamePlace "SCALE 0 7 ROOT H".toList "\x0cSCALE\t0\r\n7 ROOT  H ".toList)
        (parse "SCALE 0 7 ROOT H") (parse "\x0cSCALE\t0\r\n7 ROOT  H ") ∧
      SameOutcome (fun _ _ => True) (parse "SCALE 0 7 ROOT D")
        (parse "SCALE 0 7 #8 é\rROOT D") := by
  constructor
  · exact layout_immaterial.1 (laid_iff.mpr rfl) (laid_iff.mpr (by decide +kernel))
      (by decide +kernel)
  · let scale : Sentence :=
      { name := ⟨0, false, 'S', ['C', 'A', 'L', 'E']⟩
        arguments := [⟨6, false, '0', []⟩, ⟨8, false, '7', []⟩]
        command := .scale [⟨.interval, 6, 0⟩, ⟨.interval, 8, 7⟩]
        spelled := .scale (.cons rfl (.cons rfl .nil)) (by simp) (Nat.le_of_ble_eq_true rfl) }
    let root : Sentence :=
      { name := ⟨10, false, 'R', ['O', 'O', 'T']⟩
        arguments := [⟨15, false, 'D', []⟩]
        command := .root .d
        spelled := .root rfl }
    have hscan : Token.scan "SCALE 0 7 ROOT D".toList =
        scale.name :: (scale.arguments ++ root.name :: (root.arguments ++ [])) := by
      decide +kernel
    have hcomposed : Composed (Token.scan "SCALE 0 7 ROOT D".toList) [scale, root] := by
      rw [hscan]
      exact .sentence (by rintro - _ ⟨⟩; rfl) (.sentence nofun .done)
    have htext : "SCALE 0 7 ROOT D".toList = "SCALE 0 7 ".toList ++ "ROOT D".toList := by
      decide +kernel
    have hplace : Commentable "SCALE 0 7 ".toList "ROOT D".toList := by
      rw [htext] at hcomposed
      exact .command hcomposed (List.mem_cons_of_mem _ (List.mem_cons_self ..)) (by decide +kernel)
    have hbody : ∀ c ∈ ['8', ' ', 'é'], isLineEnd c = false := by
      simp [isLineEnd]
    have hterminator : ['\r'] ∈ lineEnds := by
      decide
    have hcommented : "SCALE 0 7 #8 é\rROOT D" = String.ofList
        ("SCALE 0 7 ".toList ++ '#' :: (['8', ' ', 'é'] ++ (['\r'] ++ "ROOT D".toList))) := by
      decide +kernel
    rw [hcommented]
    exact layout_immaterial.2 (parse_eq_ok_iff.mpr ⟨_, hcomposed, by decide, rfl⟩) htext hplace
      hbody hterminator

end Config

end MotionMidi
