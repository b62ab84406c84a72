import MotionMidi.Proofs.Flash.Failures
import MotionMidi.Proofs.Flash.Reading
import MotionMidi.Proofs.Performer.DumpedRows
import MotionMidi.Proofs.Performer.Replies

/-!
# Dumps of the medium

A dump shows the start of the medium row by row, up to the first row that cannot be read. What is
read back from it are the bytes that were shown, each with its address.

## Main definitions

- `Flash.Monitored.admitted` — how many of some reads are let through
- `Hexdump.entries` — the calls of a dump
- `Hexdump.Shows` — what comes of showing some rows
- `Hexdump.leading` — the first rows of some bytes with their addresses
- `Hexdump.located` — the bytes of some rows with their addresses

Main statements: `Hexdump.shows_rows`, `Hexdump.located_leading`, `hexdump_faithful`.
-/

namespace MotionMidi

open Flash SaveSlot

/-! ## Reads that are refused from some point on -/

/-- How many of some reads are let through. -/
def Flash.Monitored.admitted {σ : Type} (m : Monitored σ) (count : Nat) : Nat :=
  m.readsLeft.elim count (min · count)

namespace SaveSlot

variable {m : Monitored Region} {offset length : Nat}

theorem readRaw_refused (h : m.readsLeft = some 0) (offset length : Nat) :
    readRaw offset length m = .error .mediumFailure
      { m with journal := ⟨.read offset length, some .injected⟩ :: m.journal } := by
  simp only [readRaw, onMedium, EStateM.adaptExcept, Monitored.read_refused h]

theorem readRaw_counted (h : m.readsLeft ≠ some 0)
    (hle : offset + length ≤ m.medium.bytes.length) :
    readRaw offset length m = .ok ((m.medium.bytes.drop offset).take length)
      (m.afterRead m.medium offset length) :=
  onMedium_of_ok (Monitored.read_counted h (Region.read_of_le hle))

end SaveSlot

namespace Hexdump

/-! ## Rows up to the first that is refused -/

/-- The row of the bytes in some place. -/
def rowAt (bytes : List UInt8) (extent : Nat × Nat) : String :=
  row extent.1 ((bytes.drop extent.1).take extent.2)

/-- The reads of some rows in order. So many are let through, and the next one is refused. -/
def entries (extents : List (Nat × Nat)) (through : Nat) : List Entry :=
  (extents.take through).map (fun extent => ⟨.read extent.1 extent.2, none⟩) ++
    (extents.drop through).head?.toList.map fun extent =>
      ⟨.read extent.1 extent.2, some .injected⟩

/-- The message that ends a dump, if not all of its rows are let through. -/
def unreadable (through count : Nat) : List String :=
  if through < count then ["Unable to read flash"] else []

/-- What comes of showing some rows: those that are let through, and a message if that is not all of
them. Nothing is changed but the journal. -/
structure Shows (m : Monitored Region) (extents : List (Nat × Nat))
    (result : List String × Monitored Region) : Prop where
  shown : result.1 =
    (extents.take (m.admitted extents.length)).map (rowAt m.medium.bytes) ++
      unreadable (m.admitted extents.length) extents.length
  medium : result.2.medium = m.medium
  calls : Calls m result.2 (entries extents (m.admitted extents.length)).reverse

theorem unreadable_zero {count : Nat} (h : 0 < count) :
    unreadable 0 count = ["Unable to read flash"] :=
  if_pos h

theorem unreadable_succ (through count : Nat) :
    unreadable (through + 1) (count + 1) = unreadable through count := by
  simp only [unreadable, Nat.add_lt_add_iff_right]

section Rows

variable {m : Monitored Region} {extents : List (Nat × Nat)}

theorem admitted_of_refused (h : m.readsLeft = some 0) (count : Nat) : m.admitted count = 0 := by
  rw [Monitored.admitted, h]
  exact Nat.zero_min count

/-- A read that is let through counts as one. -/
theorem admitted_succ (h : m.readsLeft ≠ some 0) (count offset length : Nat) :
    m.admitted (count + 1) = (m.afterRead m.medium offset length).admitted count + 1 := by
  obtain ⟨_, readsLeft, erasesLeft, _⟩ := m
  match readsLeft, h with
  | none, _ => rfl
  | some (left + 1), _ => exact Nat.succ_min_succ left count

theorem entries_succ (extent : Nat × Nat) (through : Nat) :
    entries (extent :: extents) (through + 1) =
      ⟨.read extent.1 extent.2, none⟩ :: entries extents through :=
  rfl

theorem shows_rows (h : ∀ extent ∈ extents, extent.1 + extent.2 ≤ m.medium.bytes.length) :
    Shows m extents (rows extents m) := by
  induction extents generalizing m with
  | nil =>
    have hnone : m.admitted 0 = 0 := by
      unfold Monitored.admitted
      cases m.readsLeft <;> simp
    refine ⟨?_, rfl, ?_⟩
    · rw [List.length_nil, hnone]
      rfl
    · rw [List.length_nil, hnone]
      rfl
  | cons extent extents ih =>
    obtain ⟨hextent, hextents⟩ := List.forall_mem_cons.mp h
    rw [rows, bind_run]
    by_cases hrefused : m.readsLeft = some 0
    case pos =>
      rw [attempt_of_error (readRaw_refused hrefused _ _)]
      refine ⟨?_, rfl, ?_⟩
      · rw [admitted_of_refused hrefused, List.length_cons, unreadable_zero (Nat.succ_pos _)]
        rfl
      · rw [admitted_of_refused hrefused]
        rfl
    case neg =>
      rw [attempt_of_ok (readRaw_counted hrefused hextent)]
      have hcall : Calls m (m.afterRead m.medium extent.1 extent.2)
          [⟨.read extent.1 extent.2, none⟩] := rfl
      obtain ⟨hshown, hmedium, hcalls⟩ := ih (m := m.afterRead m.medium extent.1 extent.2) hextents
      have hadmitted := admitted_succ hrefused extents.length extent.1 extent.2
      refine ⟨?_, hmedium, ?_⟩
      · rw [List.length_cons, hadmitted, unreadable_succ, List.take_succ_cons, List.map_cons,
          List.cons_append]
        exact congrArg (rowAt m.medium.bytes extent :: ·) hshown
      · rw [List.length_cons, hadmitted, entries_succ, List.reverse_cons]
        exact hcall.trans hcalls

end Rows

/-! ## The start of the medium -/

@[simp] theorem length_extents (length : Nat) : (extents length).length = (length + 15) / 16 := by
  rw [extents, List.length_map, List.length_range]
  rfl

/-- No row goes beyond the bytes that are shown. -/
theorem extents_le {length : Nat} {extent : Nat × Nat} (h : extent ∈ extents length) :
    extent.1 + extent.2 ≤ length := by
  obtain ⟨index, hindex, rfl⟩ := List.mem_map.mp h
  have hlt : index < (length + 15) / 16 := List.mem_range.mp hindex
  simp only [rowLength]
  omega

/-- Each call of a dump reads the bytes of some row. -/
theorem call_of_mem_entries {extents : List (Nat × Nat)} {through : Nat} {entry : Entry}
    (h : entry ∈ entries extents through) :
    ∃ extent ∈ extents, entry.call = .read extent.1 extent.2 := by
  rcases List.mem_append.mp h with hadmitted | hrefused
  · obtain ⟨extent, hextent, rfl⟩ := List.mem_map.mp hadmitted
    exact ⟨extent, List.mem_of_mem_take hextent, rfl⟩
  · obtain ⟨extent, hextent, rfl⟩ := List.mem_map.mp hrefused
    exact ⟨extent, List.mem_of_mem_drop (List.mem_of_mem_head? (Option.mem_toList.mp hextent)), rfl⟩

/-- The first rows of some bytes, sixteen bytes each, with their addresses. -/
def leading (bytes : List UInt8) (count : Nat) : List (Nat × List UInt8) :=
  (List.range count).map fun index => (16 * index, (bytes.drop (16 * index)).take 16)

/-- The text of a row with its address. -/
def rowOf (row : Nat × List UInt8) : String :=
  Hexdump.row row.1 row.2

@[simp] theorem length_leading (bytes : List UInt8) (count : Nat) :
    (leading bytes count).length = count := by
  rw [leading, List.length_map, List.length_range]

theorem getElem_leading {bytes : List UInt8} {count k : Nat}
    (h : k < (leading bytes count).length) :
    (leading bytes count)[k] = (16 * k, (bytes.drop (16 * k)).take 16) := by
  simp only [leading, List.getElem_map, List.getElem_range]

theorem lt_of_mem_leading {bytes : List UInt8} {count : Nat} {row : Nat × List UInt8}
    (h : row ∈ leading bytes count) : row.1 < 16 * count := by
  obtain ⟨index, hindex, rfl⟩ := List.mem_map.mp h
  have hlt := List.mem_range.mp hindex
  dsimp only
  omega

theorem map_rowAt_extents (bytes : List UInt8) {length through : Nat}
    (h : through ≤ (length + 15) / 16) :
    ((extents length).take through).map (rowAt bytes) =
      (leading (bytes.take length) through).map rowOf := by
  have hmin : min through (unitsCovering rowLength length) = through := Nat.min_eq_left h
  rw [extents, ← List.map_take, List.take_range, hmin, leading, List.map_map, List.map_map]
  refine List.map_congr_left fun index _ => ?_
  change row (16 * index) ((bytes.drop (16 * index)).take (min 16 (length - 16 * index))) =
    row (16 * index) (((bytes.take length).drop (16 * index)).take 16)
  rw [List.drop_take, List.take_take]

/-- The bytes that a dump shows. -/
def shownBytes (m : Monitored Region) : List UInt8 :=
  m.medium.bytes.take (min 576 m.medium.bytes.length)

/-- How many rows a dump shows, if all can be read. -/
def rowCount (m : Monitored Region) : Nat :=
  ((shownBytes m).length + 15) / 16

theorem length_shownBytes (m : Monitored Region) :
    (shownBytes m).length = min 576 m.medium.bytes.length := by
  rw [shownBytes, List.length_take]
  exact Nat.min_eq_left (Nat.min_le_right _ _)

theorem shownBytes_le (m : Monitored Region) :
    (shownBytes m).length ≤ (Medium.geometry m).capacity := by
  rw [length_shownBytes]
  exact Nat.min_le_right _ _

theorem admitted_le (m : Monitored Region) (count : Nat) : m.admitted count ≤ count := by
  unfold Monitored.admitted
  cases m.readsLeft with
  | none => exact Nat.le_refl count
  | some left => exact Nat.min_le_right left count

/-- The rows of a dump lie in the medium. -/
theorem shows_dump (m : Monitored Region) : Shows m (extents (shownBytes m).length) (dump m) := by
  rw [length_shownBytes]
  exact shows_rows fun _ hextent => Nat.le_trans (extents_le hextent) (Nat.min_le_right _ _)

theorem shown_dump (m : Monitored Region) :
    (dump m).1 = (leading (shownBytes m) (m.admitted (rowCount m))).map rowOf ++
      unreadable (m.admitted (rowCount m)) (rowCount m) := by
  have hshown := (shows_dump m).shown
  rw [length_extents, map_rowAt_extents _ (admitted_le m _), length_shownBytes] at hshown
  rw [rowCount, length_shownBytes]
  exact hshown

/-- A line that starts with `hdmp` is not taken for `dump`. It shows the start of the medium. -/
theorem receiveLine_of_hexdump {σ : Type} [Medium σ] {performer : Performer} {line : String}
    (hpending : performer.pending = "") (h : startsWith hexdumpCommand line = true) (m : σ) :
    performer.receiveLine line m = ({ performer, shown := (dump m).1 }, (dump m).2) := by
  have hdump : ¬startsWith dumpCommand line = true := by
    obtain ⟨rest, hrest⟩ := List.isPrefixOf_iff_prefix.mp h
    rw [startsWith, ← hrest]
    exact Bool.false_ne_true
  rw [Performer.receiveLine_of_command hpending (.inr h), Performer.answerTo, if_neg hdump]
  rfl

/-! ## Reading back -/

/-- The bytes of some rows, each with its address. -/
def located (rows : List (Nat × List UInt8)) : List (UInt8 × Nat) :=
  rows.flatMap fun row => row.2.zipIdx row.1

/-- The bytes of row after row are the bytes in front, each at its own place. -/
theorem located_leading (bytes : List UInt8) {through : Nat}
    (h : through ≤ (bytes.length + 15) / 16) :
    located (leading bytes through) = (bytes.take (16 * through)).zipIdx := by
  rw [located, leading, List.flatMap_map]
  induction through with
  | zero => rfl
  | succ through ih =>
    -- Only the last row may be short, so the next address is the number of bytes so far.
    have hlength : (bytes.take (16 * through)).length = 16 * through := by
      rw [List.length_take]
      omega
    rw [List.range_succ, List.flatMap_append, ih (by omega), List.flatMap_singleton, Nat.mul_succ,
      List.take_add, List.zipIdx_append, hlength, Nat.zero_add]

/-- Nothing is read from the message that ends a dump. -/
theorem readRow?_of_mem_unreadable {through count : Nat} {message : String}
    (h : message ∈ unreadable through count) :
    '\n' ∉ message.toList ∧ readRow? message.toList = none := by
  unfold unreadable at h
  split at h
  case isTrue =>
    rw [List.mem_singleton.mp h]
    decide
  case isFalse => cases h

/-- Rows are read back from what they are shown as, and messages behind them are passed over. -/
theorem readDump_rows {rows : List (Nat × List UInt8)} {messages : List String}
    (hrows : ∀ row ∈ rows, row.1 < 16 ^ 8)
    (hmessages : ∀ message ∈ messages, '\n' ∉ message.toList ∧ readRow? message.toList = none) :
    readDump (String.join ((rows.map rowOf ++ messages).map (· ++ "\n"))) = rows := by
  have hlines : ∀ line ∈ rows.map rowOf ++ messages, '\n' ∉ line.toList := by
    intro line hline
    rcases List.mem_append.mp hline with hrow | hmessage
    · obtain ⟨row, hmem, rfl⟩ := List.mem_map.mp hrow
      exact newline_notMem_of_isRow (isRow_row (hrows row hmem) row.2)
    · exact (hmessages line hmessage).1
  have hread : (rows.map rowOf).filterMap (readRow? ·.toList) = rows := by
    rw [List.filterMap_map]
    refine (List.filterMap_congr fun row hrow => ?_).trans List.filterMap_some
    rw [Function.comp_apply]
    exact readRow?_of_isRow (isRow_row (hrows row hrow) row.2)
  have hpassed : messages.filterMap (readRow? ·.toList) = [] :=
    List.filterMap_eq_nil_iff.mpr fun message hmessage => (hmessages message hmessage).2
  rw [readDump_of_lines hlines, List.filterMap_append, hread, hpassed, List.append_nil]

/-- The addresses of a dump fit into eight digits. -/
theorem lt_of_mem_dump {m : Monitored Region} {row : Nat × List UInt8}
    (h : row ∈ leading (shownBytes m) (m.admitted (rowCount m))) : row.1 < 16 ^ 8 := by
  have hlt := lt_of_mem_leading h
  have hle := admitted_le m (rowCount m)
  have hlength := length_shownBytes m
  unfold rowCount at hlt hle
  omega

/-- The bytes that are read back from a dump are those in the rows that were let through. -/
theorem located_dump (m : Monitored Region) :
    located (readDump (String.join ((dump m).1.map (· ++ "\n")))) =
      ((shownBytes m).take (16 * m.admitted (rowCount m))).zipIdx := by
  rw [shown_dump, readDump_rows (fun _ => lt_of_mem_dump) fun _ => readRow?_of_mem_unreadable]
  exact located_leading _ (admitted_le m _)

end Hexdump

open Hexdump

/-- A line that starts with `hdmp` shows the first bytes of the medium, if nothing was collected
before it, and changes nothing. Whatever the size of the medium and whatever its bytes, there is a
row for each sixteen bytes, up to the first row that cannot be read. The bytes that are read back
from what is shown are those of these rows, each at its address: all of them, if all can be read. -/
theorem hexdump_faithful (m : Monitored Region) (performer : Performer) (line : String)
    (hpending : performer.pending = "") (hline : startsWith hexdumpCommand line = true) :
    let capacity := (Medium.geometry m).capacity
    let shown := m.medium.bytes.take (min 576 capacity)
    let count := (shown.length + 15) / 16
    let through := m.readsLeft.elim count (min · count)
    let reply := (performer.receiveLine line m).1
    let m' := (performer.receiveLine line m).2
    (∃ lines, reply.shown = lines ++ (if through < count then ["Unable to read flash"] else []) ∧
        lines.length = through ∧
        ∀ k (hk : k < lines.length),
          IsRow (16 * k) ((shown.drop (16 * k)).take 16) lines[k].toList) ∧
      located (readDump reply.text) = (shown.take (16 * through)).zipIdx ∧
      (through = count → located (readDump reply.text) = shown.zipIdx) ∧
      reply.performer = performer ∧ reply.outcome = none ∧ m'.medium = m.medium ∧
      Calls m m' (entries (extents shown.length) through).reverse ∧
      ∀ entry ∈ entries (extents shown.length) through,
        ∃ offset length, entry.call = .read offset length ∧ offset + length ≤ capacity := by
  intro capacity shown count through reply m'
  have hrun := receiveLine_of_hexdump hpending hline m
  have hreply : reply = { performer, shown := (dump m).1 } := congrArg Prod.fst hrun
  have hm' : m' = (dump m).2 := congrArg Prod.snd hrun
  obtain ⟨-, hmedium, hcalls⟩ := shows_dump m
  rw [length_extents] at hcalls
  have hread : located (readDump reply.text) = (shown.take (16 * through)).zipIdx := by
    rw [hreply]
    exact located_dump m
  refine ⟨⟨(leading shown through).map rowOf, ?shown, ?lines, ?rows⟩, hread, ?full,
    by rw [hreply], by rw [hreply], hm' ▸ hmedium, hm' ▸ hcalls, ?inside⟩
  case shown =>
    rw [hreply]
    exact shown_dump m
  case lines => rw [List.length_map, length_leading]
  case rows =>
    intro k hk
    rw [List.length_map] at hk
    rw [List.getElem_map, getElem_leading hk]
    have haddress := lt_of_mem_dump (List.getElem_mem hk)
    rw [getElem_leading hk] at haddress
    exact isRow_row haddress _
  case full =>
    intro hfull
    refine hread.trans (congrArg List.zipIdx (List.take_of_length_le ?_))
    omega
  case inside =>
    intro entry hentry
    obtain ⟨extent, hextent, hcall⟩ := call_of_mem_entries hentry
    exact ⟨extent.1, extent.2, hcall, Nat.le_trans (extents_le hextent) (shownBytes_le m)⟩

/-- A medium of twenty-five bytes is shown, and shown again when only its first row can be read. -/
theorem hexdump_faithful_of_odd_capacity :
    let bytes : List UInt8 := (List.range 25).map fun index => .ofNat (11 * index)
    let medium (readsLeft : Option Nat) : Monitored Region :=
      ⟨⟨bytes, 25, 25, none, 0, 0⟩, readsLeft, none, []⟩
    let reply (readsLeft : Option Nat) : Reply :=
      (({} : Performer).receiveLine "hdmp" (medium readsLeft)).1
    (reply none).shown = [
      "00000000: 000b 1621 2c37 424d 5863 6e79 848f 9aa5  ...!,7BMXcny....",
      "00000010: b0bb c6d1 dce7 f2fd 08  ........."] ∧
      located (readDump (reply none).text) = bytes.zipIdx ∧
      (reply (some 1)).shown = [
        "00000000: 000b 1621 2c37 424d 5863 6e79 848f 9aa5  ...!,7BMXcny....",
        "Unable to read flash"] ∧
      located (readDump (reply (some 1)).text) = (bytes.take 16).zipIdx := by
  intro bytes medium reply
  have hread (readsLeft : Option Nat) :=
    (hexdump_faithful (medium readsLeft) {} "hdmp" rfl (by decide)).2.1
  refine ⟨?_, (hread none).trans ?_, ?_, (hread (some 1)).trans ?_⟩
  · decide +kernel
  · decide +kernel
  · decide +kernel
  · decide +kernel

end MotionMidi
