import Mathlib.Data.List.Forall2
import Mathlib.Data.List.Induction
import MotionMidi.Performer.Console

/-!
# The rows of a dump

A row of a dump tells its address and its bytes, and nothing in the characters at its end can be
taken for more of them. So bytes can be read back from what is shown.

## Main definitions

- `Hexdump.number?`, `bytesOf?` — what hexadecimal digits tell
- `Hexdump.IsRow` — a line is the row of some bytes at an address
- `Hexdump.readRow?`, `readDump` — what a line tells, and what a whole dump tells

Main statements: `Hexdump.isRow_row`, `Hexdump.readRow?_of_isRow`, `Hexdump.readDump_of_lines`.
-/

namespace MotionMidi.Hexdump

/-! ## Digits -/

/-- The value of a hexadecimal digit. -/
def digitValue? (c : Char) : Option Nat :=
  if '0' ≤ c ∧ c ≤ '9' then some (c.toNat - '0'.toNat)
  else if 'a' ≤ c ∧ c ≤ 'f' then some (c.toNat - 'a'.toNat + 10)
  else none

/-- The number that hexadecimal digits tell. -/
def number? (digits : List Char) : Option Nat :=
  digits.foldlM (fun number c => (digitValue? c).map (16 * number + ·)) 0

/-- The bytes that hexadecimal digits tell, two digits each. -/
def bytesOf? : List Char → Option (List UInt8)
  | [] => some []
  | [_] => none
  | high :: low :: rest => do
    return .ofNat (16 * (← digitValue? high) + (← digitValue? low)) :: (← bytesOf? rest)

theorem digitValue?_digit {n : Nat} (h : n < 16) : digitValue? (digit n) = some n := by
  have hall : ∀ n : Fin 16, digitValue? (digit n) = some n.val := by
    decide
  exact hall ⟨n, h⟩

@[simp] theorem length_digits (width n : Nat) : (digits width n).length = width := by
  induction width generalizing n with
  | zero => rfl
  | succ width ih => rw [digits, List.length_append, ih, List.length_singleton]

theorem number?_concat (front : List Char) (c : Char) :
    number? (front ++ [c]) =
      (number? front).bind fun number => (digitValue? c).map (16 * number + ·) := by
  rw [number?, List.foldlM_append]
  simp only [List.foldlM_cons, List.foldlM_nil, bind_pure]
  rfl

@[simp] theorem number?_digits (width n : Nat) :
    number? (digits width n) = some (n % 16 ^ width) := by
  induction width generalizing n with
  | zero => rw [Nat.pow_zero, Nat.mod_one]; rfl
  | succ width ih =>
    rw [digits, number?_concat, ih, digitValue?_digit (Nat.mod_lt _ (by decide)), Nat.pow_succ',
      Nat.mod_mul]
    exact congrArg some (Nat.add_comm _ _)

theorem byteDigits_eq (byte : UInt8) :
    byteDigits byte = [digit (byte.toNat / 16 % 16), digit (byte.toNat % 16)] := rfl

theorem bytesOf?_byteDigits (byte : UInt8) (rest : List Char) :
    bytesOf? (byteDigits byte ++ rest) = (bytesOf? rest).map (byte :: ·) := by
  have hlt := byte.toNat_lt
  have hbyte : 16 * (byte.toNat / 16 % 16) + byte.toNat % 16 = byte.toNat := by
    omega
  rw [byteDigits_eq, List.cons_append, List.cons_append, List.nil_append, bytesOf?,
    digitValue?_digit (Nat.mod_lt _ (by decide)), digitValue?_digit (Nat.mod_lt _ (by decide))]
  dsimp only [bind, Option.bind, pure]
  rw [hbyte, UInt8.ofNat_toNat]
  cases bytesOf? rest <;> rfl

@[simp] theorem bytesOf?_flatMap (bytes : List UInt8) :
    bytesOf? (bytes.flatMap byteDigits) = some bytes := by
  induction bytes with
  | nil => rfl
  | cons byte bytes ih => rw [List.flatMap_cons, bytesOf?_byteDigits, ih, Option.map_some]

/-! ## Rows -/

/-- Bytes in pairs. The last one stands alone if their number is odd. -/
def pairs : List UInt8 → List (List UInt8)
  | [] => []
  | [byte] => [[byte]]
  | first :: second :: bytes => [first, second] :: pairs bytes

/-- A printable character stands for itself, and a point stands for all that cannot be printed. -/
def StandsFor (c : Char) (byte : UInt8) : Prop :=
  if 32 ≤ byte.toNat ∧ byte.toNat ≤ 126 then c.toNat = byte.toNat else c = '.'

/-- A line is the row of some bytes at an address: eight digits tell the address, then groups of
digits tell two bytes each, and then a character stands for each byte. -/
def IsRow (address : Nat) (bytes : List UInt8) (line : List Char) : Prop :=
  ∃ head groups characters, line = head ++ ':' :: groups.flatMap (' ' :: ·) ++
      ' ' :: ' ' :: characters ∧
    head.length = 8 ∧ number? head = some address ∧
    List.Forall₂ (fun group pair => bytesOf? group = some pair) groups (pairs bytes) ∧
    List.Forall₂ StandsFor characters bytes

@[simp] theorem flatten_pairs (bytes : List UInt8) : (pairs bytes).flatten = bytes := by
  induction bytes using pairs.induct with
  | case1 => rfl
  | case2 byte => rfl
  | case3 first second bytes ih => rw [pairs, List.flatten_cons, ih]; rfl

theorem ne_nil_of_mem_pairs {bytes pair : List UInt8} (h : pair ∈ pairs bytes) : pair ≠ [] := by
  induction bytes using pairs.induct with
  | case1 => cases h
  | case2 byte => rw [List.mem_singleton.mp h]; exact List.cons_ne_nil _ _
  | case3 first second bytes ih =>
    rcases List.mem_cons.mp h with rfl | hrest
    · exact List.cons_ne_nil _ _
    · exact ih hrest

theorem groups_eq_flatMap (bytes : List UInt8) :
    groups bytes = (pairs bytes).flatMap fun pair => ' ' :: pair.flatMap byteDigits := by
  induction bytes using pairs.induct with
  | case1 => rfl
  | case2 byte => simp [groups, pairs]
  | case3 first second bytes ih =>
    rw [groups, pairs, List.flatMap_cons, ih]
    simp

theorem standsFor_printable (byte : UInt8) : StandsFor (printable byte) byte := by
  have hlt := byte.toNat_lt
  have hrange : (0x20 ≤ byte ∧ byte ≤ 0x7e) ↔ (32 ≤ byte.toNat ∧ byte.toNat ≤ 126) := by
    rw [UInt8.le_iff_toNat_le, UInt8.le_iff_toNat_le]
    rfl
  unfold StandsFor printable
  by_cases h : 32 ≤ byte.toNat ∧ byte.toNat ≤ 126
  · rw [if_pos h, if_pos (hrange.mpr h)]
    have hvalid : byte.toNat.isValidChar := .inl (by omega)
    rw [Char.ofNat, dif_pos hvalid]
    rfl
  · rw [if_neg h, if_neg (mt hrange.mp h)]

theorem isRow_row {address : Nat} (h : address < 16 ^ 8) (bytes : List UInt8) :
    IsRow address bytes (row address bytes).toList := by
  refine ⟨digits 8 address, (pairs bytes).map (·.flatMap byteDigits), bytes.map printable,
    ?_, length_digits _ _, ?_, ?_, ?_⟩
  · rw [row, String.toList_ofList, groups_eq_flatMap, List.flatMap_map]
  · rw [number?_digits, Nat.mod_eq_of_lt h]
  · rw [List.forall₂_map_left_iff]
    exact List.forall₂_same.mpr fun pair _ => bytesOf?_flatMap pair
  · rw [List.forall₂_map_left_iff]
    exact List.forall₂_same.mpr fun byte _ => standsFor_printable byte

/-! ## Reading rows -/

/-- The bytes that are told by groups of digits, up to the two blanks behind them. -/
def readGroups? : List Char → Option (List UInt8)
  | first :: second :: rest =>
    if first = ' ' then if second = ' ' then some [] else readGroups? (second :: rest)
    else do
      return .ofNat (16 * (← digitValue? first) + (← digitValue? second)) :: (← readGroups? rest)
  | _ => none

/-- The address and the bytes that a row tells, whatever its last characters are. -/
def readRow? (line : List Char) : Option (Nat × List UInt8) :=
  match line.drop 8 with
  | ':' :: rest => do return (← number? (line.take 8), ← readGroups? rest)
  | _ => none

/-- The addresses and the bytes that the rows among some lines tell. -/
def readDump (text : String) : List (Nat × List UInt8) :=
  (text.toList.splitOnP (· = '\n')).filterMap readRow?

theorem ne_blank_of_digitValue? {c : Char} {value : Nat} (h : digitValue? c = some value) :
    c ≠ ' ' ∧ c ≠ '\n' := by
  constructor
  · rintro rfl
    cases h
  · rintro rfl
    cases h

/-- Digits in front of groups are bytes in front of theirs. -/
theorem readGroups?_append {group : List Char} {bytes : List UInt8}
    (h : bytesOf? group = some bytes) (rest : List Char) :
    readGroups? (group ++ rest) = (readGroups? rest).map (bytes ++ ·) := by
  induction group using bytesOf?.induct generalizing bytes with
  | case1 =>
    cases h
    exact Option.map_id'.symm
  | case2 c => cases h
  | case3 high low group ih =>
    rw [bytesOf?] at h
    simp only [bind, Option.bind_eq_some_iff, pure, Option.some.injEq] at h
    obtain ⟨upper, hupper, lower, hlower, others, hothers, rfl⟩ := h
    rw [List.cons_append, List.cons_append, readGroups?,
      if_neg (ne_blank_of_digitValue? hupper).1, hupper, hlower, ih hothers]
    cases readGroups? rest <;> rfl

/-- The bytes of a row are told by its groups. -/
theorem readGroups?_groups {groups : List (List Char)} {pairs : List (List UInt8)}
    (h : List.Forall₂ (fun group pair => bytesOf? group = some pair) groups pairs)
    (hpairs : ∀ pair ∈ pairs, pair ≠ []) (rest : List Char) :
    readGroups? (groups.flatMap (' ' :: ·) ++ ' ' :: ' ' :: rest) = some pairs.flatten := by
  induction h with
  | nil => rfl
  | @cons group pair groups pairs hgroup _ ih =>
    obtain ⟨hpair, hothers⟩ := List.forall_mem_cons.mp hpairs
    rw [List.flatMap_cons, List.append_assoc, List.cons_append, List.flatten_cons]
    cases group with
    | nil => cases hgroup; exact absurd rfl hpair
    | cons c group =>
      have hc : c ≠ ' ' := by
        rintro rfl
        cases group <;> cases hgroup
      rw [List.cons_append, readGroups?, if_pos rfl, if_neg hc, ← List.cons_append,
        readGroups?_append hgroup, ih hothers]
      rfl

/-- A row tells its address and its bytes. -/
theorem readRow?_of_isRow {address : Nat} {bytes : List UInt8} {line : List Char}
    (h : IsRow address bytes line) : readRow? line = some (address, bytes) := by
  obtain ⟨head, groups, characters, rfl, hlength, haddress, hgroups, -⟩ := h
  have hread := readGroups?_groups hgroups (fun _ => ne_nil_of_mem_pairs) characters
  rw [flatten_pairs] at hread
  rw [readRow?, List.append_assoc, ← hlength, List.drop_left, List.take_left, List.cons_append]
  simp only [haddress, hread]
  rfl

/-! ## Reading dumps -/

theorem isDigit_of_number? {digits : List Char} {number : Nat} (h : number? digits = some number)
    {c : Char} (hc : c ∈ digits) : ∃ value, digitValue? c = some value := by
  induction digits using List.reverseRecOn generalizing number with
  | nil => cases hc
  | append_singleton front last ih =>
    rw [number?_concat, Option.bind_eq_some_iff] at h
    obtain ⟨upper, hfront, hlast⟩ := h
    obtain ⟨value, hvalue, -⟩ := Option.map_eq_some_iff.mp hlast
    rcases List.mem_append.mp hc with hfirst | hsingle
    · exact ih hfront hfirst
    · exact ⟨value, List.mem_singleton.mp hsingle ▸ hvalue⟩

theorem isDigit_of_bytesOf? {digits : List Char} {bytes : List UInt8}
    (h : bytesOf? digits = some bytes) {c : Char} (hc : c ∈ digits) :
    ∃ value, digitValue? c = some value := by
  induction digits using bytesOf?.induct generalizing bytes with
  | case1 => cases hc
  | case2 => cases h
  | case3 high low digits ih =>
    rw [bytesOf?] at h
    simp only [bind, Option.bind_eq_some_iff, pure, Option.some.injEq] at h
    obtain ⟨upper, hupper, lower, hlower, others, hothers, -⟩ := h
    rcases List.mem_cons.mp hc with rfl | hc
    · exact ⟨upper, hupper⟩
    rcases List.mem_cons.mp hc with rfl | hc
    · exact ⟨lower, hlower⟩
    · exact ih hothers hc

theorem ne_newline_of_standsFor {c : Char} {byte : UInt8} (h : StandsFor c byte) : c ≠ '\n' := by
  rintro rfl
  unfold StandsFor at h
  split at h
  case isTrue hrange =>
    have htoNat : '\n'.toNat = 10 := rfl
    omega
  case isFalse => cases h

/-- A row is a single line. -/
theorem newline_notMem_of_isRow {address : Nat} {bytes : List UInt8} {line : List Char}
    (h : IsRow address bytes line) : '\n' ∉ line := by
  obtain ⟨head, groups, characters, rfl, -, haddress, hgroups, hcharacters⟩ := h
  have hhead : '\n' ∉ head := by
    intro hmem
    obtain ⟨value, hvalue⟩ := isDigit_of_number? haddress hmem
    exact (ne_blank_of_digitValue? hvalue).2 rfl
  have hgroup : ∀ group ∈ groups, '\n' ∉ group := by
    refine ((List.forall₂_and_left _ _).mp (hgroups.imp fun group pair hpair => ⟨?_, hpair⟩)).1
    intro hmem
    obtain ⟨value, hvalue⟩ := isDigit_of_bytesOf? hpair hmem
    exact (ne_blank_of_digitValue? hvalue).2 rfl
  have hcharacter : ∀ c ∈ characters, c ≠ '\n' :=
    ((List.forall₂_and_left _ _).mp
      (hcharacters.imp fun c byte hc => ⟨ne_newline_of_standsFor hc, hc⟩)).1
  simp only [List.mem_append, List.mem_cons, List.mem_flatMap, not_or, not_exists, not_and]
  exact ⟨⟨hhead, by decide, fun group hmem => ⟨by decide, hgroup group hmem⟩⟩,
    by decide, by decide, fun hmem => hcharacter _ hmem rfl⟩

/-- Each line of a dump is read by itself. -/
theorem readDump_of_lines {lines : List String} (h : ∀ line ∈ lines, '\n' ∉ line.toList) :
    readDump (String.join (lines.map (· ++ "\n"))) = lines.filterMap (readRow? ·.toList) := by
  rw [readDump, String.toList_join, List.flatMap_map]
  induction lines with
  | nil => rfl
  | cons line lines ih =>
    obtain ⟨hline, hlines⟩ := List.forall_mem_cons.mp h
    have hplain : ∀ c ∈ line.toList, decide (c = '\n') = false := by
      intro c hc
      exact decide_eq_false fun heq => hline (heq ▸ hc)
    have hend : (line ++ "\n").toList = line.toList ++ ['\n'] := String.toList_append
    rw [List.flatMap_cons, hend, List.append_assoc, List.singleton_append,
      List.splitOnP_append_cons_of_forall_mem hplain '\n' (by decide), List.filterMap_cons,
      List.filterMap_cons, ih hlines]

end MotionMidi.Hexdump
