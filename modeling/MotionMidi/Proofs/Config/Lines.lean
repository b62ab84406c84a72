import Mathlib.Data.List.TakeWhile
import MotionMidi.Proofs.Config.Layout
import MotionMidi.Proofs.Serial.Lines

/-!
# Reading line by line

Line ends separate words and end comments, and do nothing else. So empty lines can be left out, and
it does not matter which characters end a line.

## Main definitions

- `Token.outline` — a word, and whether it starts a line

Main statement: `Config.parse_linesOf`.
-/

namespace MotionMidi

namespace Token

/-- The characters of a word, and whether a line ended in front of it. -/
def outline (token : Token) : List Char × Bool :=
  (token.chars, token.startsLine)

theorem forall₂_alike_iff {tokens tokens' : List Token} :
    List.Forall₂ (Token.Alike fun _ _ => True) tokens tokens' ↔
      tokens.map outline = tokens'.map outline := by
  rw [← List.forall₂_eq_eq_eq, List.forall₂_map_left_iff, List.forall₂_map_right_iff]
  constructor
  · intro h
    exact h.imp fun token token' h => Prod.ext h.chars h.startsLine
  · intro h
    exact h.imp fun token token' h => ⟨congrArg Prod.fst h, congrArg Prod.snd h, trivial⟩

/-- Where a text starts does not matter for its words. -/
theorem outline_scanFrom (position position' : Nat) (startsLine : Bool) (text : List Char) :
    (scanFrom position startsLine text).map outline =
      (scanFrom position' startsLine text).map outline := by
  induction position, startsLine, text using scanFrom.induct generalizing position' with
  | case1 => rw [scanFrom, scanFrom]
  | case2 position startsLine c text hblank ih =>
    rw [scanFrom_blank hblank, scanFrom_blank hblank]
    exact ih _
  | case3 position startsLine c text hplain rest ih =>
    rw [scanFrom, scanFrom, if_neg hplain, if_neg hplain, List.map_cons, List.map_cons]
    exact congrArg _ (ih _)

theorem takeWhile_append_cons {α : Type} {p : α → Bool} {a : α} (h : p a = false)
    (front back : List α) : (front ++ a :: back).takeWhile p = front.takeWhile p := by
  induction front with
  | nil => simp [h]
  | cons b front ih =>
    rw [List.cons_append, List.takeWhile_cons, List.takeWhile_cons, ih]

theorem dropWhile_append_cons {α : Type} {p : α → Bool} {a : α} (h : p a = false)
    (front back : List α) :
    (front ++ a :: back).dropWhile p = front.dropWhile p ++ a :: back := by
  induction front with
  | nil => simp [h]
  | cons b front ih =>
    rw [List.cons_append, List.dropWhile_cons, List.dropWhile_cons, ih]
    split <;> rfl

/-- A line end separates the words in front of it from those behind it. -/
theorem outline_append_lineEnd (position position' : Nat) (startsLine : Bool) (front : List Char)
    {c : Char} (hend : isLineEnd c) (back : List Char) :
    (scanFrom position startsLine (front ++ c :: back)).map outline =
      (scanFrom position startsLine front).map outline ++
        (scanFrom position' true back).map outline := by
  have hblank := isBlank_of_isLineEnd hend
  induction position, startsLine, front using scanFrom.induct with
  | case1 position startsLine =>
    rw [List.nil_append, scanFrom_blank hblank, scanFrom_nil, hend, Bool.or_true]
    exact outline_scanFrom _ _ _ _
  | case2 position startsLine d front hd ih =>
    rw [List.cons_append, scanFrom_blank hd, scanFrom_blank hd]
    exact ih
  | case3 position startsLine d front hd rest ih =>
    have hstop : (!isBlank c) = false := by rw [hblank]; rfl
    rw [List.cons_append, scanFrom, scanFrom, if_neg hd, if_neg hd]
    simp only [takeWhile_append_cons (p := (!isBlank ·)) hstop,
      dropWhile_append_cons (p := (!isBlank ·)) hstop, List.map_cons, List.cons_append]
    exact List.cons_eq_cons.mpr ⟨rfl, ih⟩

/-- The words of a text are those of its lines. -/
theorem outline_splitOnP (position : Nat) (text : List Char) :
    (scanFrom position true text).map outline =
      (text.splitOnP isLineEnd).flatMap fun piece => (scanFrom 0 true piece).map outline := by
  induction hsize : text.length using Nat.strongRecOn generalizing position text with
  | ind size ih =>
    have hfront : ∀ c ∈ text.takeWhile (!isLineEnd ·), isLineEnd c = false := by
      intro c hc
      simpa using List.mem_takeWhile_imp hc
    match hback : text.dropWhile (!isLineEnd ·) with
    | [] =>
      have htext : text.takeWhile (!isLineEnd ·) = text := by
        rw [← List.append_nil (text.takeWhile _), ← hback, List.takeWhile_append_dropWhile]
      rw [htext] at hfront
      rw [List.splitOnP_eq_singleton hfront, List.flatMap_singleton]
      exact outline_scanFrom _ _ _ _
    | c :: back =>
      have htext : text = text.takeWhile (!isLineEnd ·) ++ c :: back := by
        rw [← hback, List.takeWhile_append_dropWhile]
      have hend : isLineEnd c := by
        have hhead := List.head?_dropWhile_not (!isLineEnd ·) text
        rw [hback] at hhead
        simpa using hhead
      have hlength : back.length < size := by
        rw [← hsize, htext, List.length_append, List.length_cons]
        omega
      rw [htext, outline_append_lineEnd position 0 true _ hend,
        List.splitOnP_append_cons_of_forall_mem hfront c hend, List.flatMap_cons,
        ih _ hlength _ _ rfl, outline_scanFrom position 0]

theorem outline_intercalate (position : Nat) (pieces : List (List Char)) :
    (scanFrom position true (['\n'].intercalate pieces)).map outline =
      pieces.flatMap fun piece => (scanFrom 0 true piece).map outline := by
  induction pieces generalizing position with
  | nil => simp
  | cons piece pieces ih =>
    rw [List.flatMap_cons]
    cases pieces with
    | nil =>
      rw [List.flatMap_nil, List.append_nil, List.intercalate_singleton]
      exact outline_scanFrom _ _ _ _
    | cons next pieces =>
      rw [List.intercalate_cons_cons, List.append_assoc, List.singleton_append,
        outline_append_lineEnd position 0 true piece rfl, ih, outline_scanFrom position 0]

end Token

namespace Command

/-- Whether a line ended in front of a text does not matter. -/
theorem readAll_scanFrom (declared position : Nat) (startsLine : Bool) (text : List Char) :
    readAll declared (Token.scanFrom position startsLine text) =
      readAll declared (Token.scanFrom position true text) := by
  induction position, startsLine, text using Token.scanFrom.induct with
  | case1 => rw [Token.scanFrom, Token.scanFrom]
  | case2 position startsLine c text hblank ih =>
    rw [Token.scanFrom_blank hblank, ih, Token.scanFrom_blank hblank, Bool.true_or]
  | case3 position startsLine c text hplain rest ih =>
    rw [Token.scanFrom, Token.scanFrom, if_neg hplain, if_neg hplain]
    exact readAll_startsLine declared ⟨position, true, c, rest⟩ startsLine _

end Command

namespace Config

theorem flatMap_filter_ne_nil {α β : Type} [DecidableEq α] {f : List α → List β} (h : f [] = [])
    (pieces : List (List α)) : (pieces.filter (· ≠ [])).flatMap f = pieces.flatMap f := by
  induction pieces with
  | nil => rfl
  | cons piece pieces ih =>
    rw [List.filter_cons, List.flatMap_cons]
    split
    case isTrue => rw [List.flatMap_cons, ih]
    case isFalse hempty =>
      have hpiece : piece = [] := by simpa using hempty
      rw [hpiece, h, ih, List.nil_append]

/-- Only what stands between line ends matters. -/
theorem parse_linesOf (text : String) :
    (parse ("\n".intercalate (linesOf text))).toOption.map Parsed.config =
      (parse text).toOption.map Parsed.config := by
  have hjoined : ("\n".intercalate (linesOf text)).toList =
      ['\n'].intercalate ((text.toList.splitOnP isLineEnd).filter (· ≠ [])) := by
    have hchars : String.toList ∘ String.ofList = id := funext fun _ => String.toList_ofList
    rw [String.toList_intercalate, linesOf, List.map_map, hchars, List.map_id]
    rfl
  have houtline : (Token.scanFrom 0 true ("\n".intercalate (linesOf text)).toList).map
      Token.outline = (Token.scanFrom 0 true text.toList).map Token.outline := by
    rw [hjoined, Token.outline_intercalate, Token.outline_splitOnP, flatMap_filter_ne_nil]
    rw [Token.scanFrom]
    rfl
  have halike : Results _ _ (Command.readAll 0 _) (Command.readAll 0 _) :=
    Command.readAll_alike (Token.forall₂_alike_iff.mpr houtline)
  rw [← Command.readAll_scanFrom 0 0 false, ← Command.readAll_scanFrom 0 0 false] at halike
  rw [parse, parse, Command.parse, Command.parse, Token.scan, Token.scan]
  generalize Command.readAll 0 (Token.scanFrom 0 false text.toList) = result at halike ⊢
  generalize Command.readAll 0 (Token.scanFrom 0 false _) = result' at halike ⊢
  cases halike with
  | ok h => simp [Except.mapError, Except.map, Except.toOption, ofCommands_alike h]
  | error h => rfl

end Config

end MotionMidi
